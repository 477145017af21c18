import ViewEngine.Proofs.Addressing.Positions
import ViewEngine.Proofs.Propagation.Standing

/-!
How paths are spelled. The place that a path leads to tells its steps, but not the path: a number can be spelled in more
ways than one. It does among the paths that are spelled like their steps.
-/

namespace ViewEngine

namespace Path

variable {path other above name : String} {steps others : List PathStep} {last : PathStep}

def readNode (node : String) : Except PathFault (List PathStep) :=
  if node.isEmpty then .ok [] else read node

theorem readNode_eq (node : String) : readNode node = (properties node).mapM PathStep.read := by
  unfold readNode properties
  split
  · rfl
  next filled => rw [read, if_neg filled]

theorem readNode_of_read (parsed : read path = .ok steps) : readNode path = .ok steps := by
  rw [readNode, if_neg, parsed]
  intro empty
  rw [read, if_pos empty] at parsed
  contradiction

theorem nodePlace?_eq (node : String) : nodePlace? node = (readNode node).toOption.map (·.flatMap PathStep.place) := by
  unfold nodePlace? readNode
  split <;> rfl

theorem readNode_child (isStep : IsStep name) : readNode (child above name) = .ok steps ↔
    ∃ leads last, readNode above = .ok leads ∧ PathStep.read name = .ok last ∧ steps = leads ++ [last] := by
  rw [readNode_eq, readNode_eq, properties_child above isStep, List.mapM_append, List.mapM_cons, List.mapM_nil]
  constructor
  · intro parsed
    obtain ⟨leads, found, parsed⟩ := bind_eq_ok.mp parsed
    obtain ⟨lasts, single, parsed⟩ := bind_eq_ok.mp parsed
    obtain ⟨last, readable, same⟩ := bind_eq_ok.mp single
    cases same
    cases parsed
    exact ⟨leads, last, found, readable, rfl⟩
  · rintro ⟨leads, last, found, readable, rfl⟩
    rw [found, readable]
    rfl

theorem steps_of_read (parsed : read path = .ok steps) : ∃ leads last, readNode (node path) = .ok leads ∧
    PathStep.read (property path) = .ok last ∧ steps = leads ++ [last] := by
  refine (readNode_child ⟨property_ne_empty_of_read parsed, (splitProperty_cases path).1⟩).mp ?_
  rw [child_node_property parsed]
  exact readNode_of_read parsed

theorem readNode_node (parsed : readNode path = .ok steps) : ∃ leads, readNode (node path) = .ok leads := by
  unfold readNode at parsed
  split at parsed
  next root =>
    rw [String.isEmpty_iff.mp root]
    exact ⟨[], rfl⟩
  next =>
    obtain ⟨leads, -, found, -⟩ := steps_of_read parsed
    exact ⟨leads, found⟩

theorem head?_flatMap_place (steps : List PathStep) (number : Nat) :
    (steps.flatMap PathStep.place).head? ≠ some (.position number) := by
  cases steps with
  | nil => exact (Option.some_ne_none _).symm
  | cons step rest =>
      rw [List.flatMap_cons, PathStep.place, List.cons_append, List.head?_cons]
      rintro ⟨⟩

theorem flatMap_place_injective : Function.Injective (List.flatMap PathStep.place) := by
  intro steps
  induction steps with
  | nil =>
      intro others same
      cases others with
      | nil => rfl
      | cons other rest => simp [PathStep.place] at same
  | cons step rest ih =>
      intro others same
      cases others with
      | nil => simp [PathStep.place] at same
      | cons other more =>
          obtain ⟨property, position⟩ := step
          obtain ⟨name, number⟩ := other
          rw [List.flatMap_cons, List.flatMap_cons, PathStep.place, PathStep.place, List.cons_append,
            List.cons_append] at same
          obtain ⟨first, same⟩ := List.cons.inj same
          cases first
          -- A position is told from the property of the next step.
          cases position with
          | none =>
              cases number with
              | none => exact congrArg _ (ih same)
              | some number => exact absurd (congrArg List.head? same) (head?_flatMap_place rest number)
          | some position =>
              cases number with
              | none => exact absurd (congrArg List.head? same).symm (head?_flatMap_place more position)
              | some number =>
                  obtain ⟨chosen, later⟩ := List.cons.inj same
                  cases chosen
                  exact congrArg _ (ih later)

/-- The place of the property that a path names. -/
def target? (path : String) : Option Place :=
  place? (node path) (property path)

/-- A path that names a property of a node, not an element of a collection. -/
structure IsAddress (path : String) : Prop where
  plain : '[' ∉ (property path).toList
  parsed : ∃ steps, read path = .ok steps

theorem target?_of_read (parsed : read path = .ok steps) (plain : '[' ∉ (property path).toList) :
    target? path = some (steps.flatMap PathStep.place) := by
  obtain ⟨leads, last, found, readable, rfl⟩ := steps_of_read parsed
  have closed : (property path).toList.contains '[' = false := by simpa using plain
  cases (PathStep.read_of_plain (property_ne_empty_of_read parsed) closed).symm.trans readable
  rw [target?, place?_eq, nodePlace?_eq, found, List.flatMap_append, List.flatMap_singleton]
  rfl

theorem IsAddress.target?_eq_iff (first : IsAddress path) (second : IsAddress other) :
    target? path = target? other ↔ read path = read other := by
  obtain ⟨plain, steps, parsed⟩ := first
  obtain ⟨otherPlain, others, otherParsed⟩ := second
  rw [target?_of_read parsed plain, target?_of_read otherParsed otherPlain, parsed, otherParsed, Option.some.injEq,
    Except.ok.injEq]
  exact flatMap_place_injective.eq_iff

theorem isAddress_child (found : readNode above = .ok steps) (isStep : IsStep name) (unopened : '[' ∉ name.toList) :
    IsAddress (child above name) := by
  have closed : name.toList.contains '[' = false := by simpa using unopened
  have parsed := (readNode_child isStep).mpr ⟨steps, _, found, PathStep.read_of_plain isStep.1 closed, rfl⟩
  rw [readNode, if_neg (String.isEmpty_iff.not.mpr (child_ne_empty isStep))] at parsed
  refine ⟨?_, _, parsed⟩
  rwa [property, splitProperty_child above isStep.2]

theorem IsAddress.node (address : IsAddress path) : ∃ steps, readNode (node path) = .ok steps := by
  obtain ⟨-, steps, parsed⟩ := address
  exact readNode_node (readNode_of_read parsed)

/-- A path that is spelled like its steps. -/
def IsCanonical (path : String) : Prop :=
  ∃ steps : List PathStep, (∀ s ∈ steps, s.IsReadable) ∧ text steps = path

theorem isCanonical_of_text (parsed : read path = .ok steps) (same : text steps = path) : IsCanonical path :=
  ⟨steps, isReadable_of_read parsed, same⟩

theorem readNode_text (readable : ∀ s ∈ steps, s.IsReadable) : readNode (text steps) = .ok steps := by
  by_cases root : steps = []
  · subst root
    rfl
  · exact readNode_of_read (read_text root readable)

theorem IsAddress.eq_of_read (address : IsAddress path) (first : IsCanonical path) (second : IsCanonical other)
    (same : read path = read other) : path = other := by
  obtain ⟨-, found, parsed⟩ := address
  obtain ⟨steps, readable, rfl⟩ := first
  obtain ⟨others, otherReadable, rfl⟩ := second
  have alike : readNode (text steps) = readNode (text others) :=
    (readNode_of_read parsed).trans (readNode_of_read (same.symm.trans parsed)).symm
  rw [readNode_text readable, readNode_text otherReadable] at alike
  rw [Except.ok.inj alike]

theorem IsCanonical.eq_of_nodePlace? (first : IsCanonical path) (second : IsCanonical other)
    (same : nodePlace? path = nodePlace? other) : path = other := by
  obtain ⟨steps, readable, rfl⟩ := first
  obtain ⟨others, otherReadable, rfl⟩ := second
  rw [nodePlace?_eq, nodePlace?_eq, readNode_text readable, readNode_text otherReadable] at same
  rw [flatMap_place_injective (Option.some.inj same)]

theorem text_concat (readable : ∀ s ∈ steps, s.IsReadable) (last : PathStep) :
    text (steps ++ [last]) = child (text steps) last.text := by
  rw [text, List.map_append, List.map_singleton, intercalate_concat, text]
  intro part member
  obtain ⟨s, inside, rfl⟩ := List.mem_map.mp member
  exact PathStep.text_ne_empty (readable s inside).filled

theorem IsCanonical.node (canonical : IsCanonical path) : IsCanonical (node path) := by
  obtain ⟨steps, readable, rfl⟩ := canonical
  rcases List.eq_nil_or_concat' steps with rfl | ⟨leads, last, rfl⟩
  · exact ⟨[], readable, rfl⟩
  · have leading : ∀ s ∈ leads, s.IsReadable := fun s member => readable s (List.mem_append_left _ member)
    have whole := (readable last (List.mem_append_right _ (List.mem_singleton_self last))).whole
    refine ⟨leads, leading, ?_⟩
    rw [text_concat leading, Path.node, splitProperty_child _ (PathStep.isPart_text whole).whole]

theorem IsCanonical.child (canonical : IsCanonical above) (isStep : IsStep name) (unopened : '[' ∉ name.toList) :
    IsCanonical (child above name) := by
  obtain ⟨steps, readable, rfl⟩ := canonical
  have last : PathStep.IsReadable ⟨name, none⟩ := ⟨isStep.1, unopened, isStep.2, nofun⟩
  exact ⟨steps ++ [⟨name, none⟩], List.forall_mem_append.mpr ⟨readable, List.forall_mem_singleton.mpr last⟩,
    text_concat readable _⟩

end Path

end ViewEngine
