import ViewEngine.Proofs.Propagation.Addresses
import ViewEngine.Proofs.Text.Digits

namespace ViewEngine

namespace PathStep

structure IsReadable (s : PathStep) : Prop where
  filled : s.property ≠ ""
  unopened : '[' ∉ s.property.toList
  whole : '.' ∉ s.property.toList
  bounded : ∀ position ∈ s.position, position < 2 ^ 64

variable {s : PathStep} {part property : String} {position : Nat}

theorem readCount?_toString (position : Nat) :
    Number.readCount? (toString position) = if position < 2 ^ 64 then some position else none := by
  have unsigned : ∀ rest, (toString position).toList ≠ '+' :: rest := by
    intro rest signed
    have plus := isDigit_toString position '+' (signed ▸ List.mem_cons_self ..)
    contradiction
  unfold Number.readCount?
  dsimp only
  split
  next rest signed => exact absurd signed (unsigned rest)
  next => simp only [Number.allDigits?_toString, Option.filter_some, Nat.pow_eq, decide_eq_true_eq]

theorem readPosition?_toString (position : Nat) :
    readPosition? ((toString position).toList ++ [']']) = if position < 2 ^ 64 then some position else none := by
  rw [readPosition?, List.reverse_append, List.reverse_singleton, List.singleton_append, ← readCount?_toString]
  simp only
  rw [List.reverse_reverse, String.ofList_toList]

theorem takeWhile_unopened (unopened : '[' ∉ property.toList) (rest : List Char) :
    (property.toList ++ '[' :: rest).takeWhile (· != '[') = property.toList ∧
      (property.toList ++ '[' :: rest).dropWhile (· != '[') = '[' :: rest := by
  have plain : ∀ c ∈ property.toList, (c != '[') = true := by
    intro c member
    rw [bne_iff_ne]
    rintro rfl
    exact unopened member
  exact ⟨by rw [List.takeWhile_append_of_pos plain]; simp, by rw [List.dropWhile_append_of_pos plain]; simp⟩

theorem read_text_position (unopened : '[' ∉ property.toList) (filled : property ≠ "") :
    read (text ⟨property, some position⟩) =
      if position < 2 ^ 64 then .ok ⟨property, some position⟩ else .error .malformedPosition := by
  have characters : (text ⟨property, some position⟩).toList =
      property.toList ++ '[' :: ((toString position).toList ++ [']']) := by
    simp [text]
  have present : property.toList.isEmpty = false := by simpa using filled
  obtain ⟨taken, dropped⟩ := takeWhile_unopened unopened ((toString position).toList ++ [']'])
  rw [read, characters, taken, dropped]
  simp only [readPosition?_toString, present, String.ofList_toList]
  by_cases bounded : position < 2 ^ 64
  · rw [if_pos bounded, if_pos bounded]
    rfl
  · rw [if_neg bounded, if_neg bounded]

theorem IsReadable.read_text (readable : s.IsReadable) : read s.text = .ok s := by
  obtain ⟨property, position⟩ := s
  cases position with
  | none =>
      refine read_of_plain readable.filled ?_
      rw [Bool.eq_false_iff, Ne, List.contains_iff_mem]
      exact readable.unopened
  | some position =>
      rw [read_text_position readable.unopened readable.filled, if_pos (readable.bounded position rfl)]

theorem position_lt_of_read {step : PathStep} (parsed : read part = .ok step) :
    ∀ position ∈ step.position, position < 2 ^ 64 := by
  intro position member
  unfold read at parsed
  dsimp only at parsed
  split at parsed
  · split at parsed
    · contradiction
    · cases parsed
      contradiction
  next rest _ =>
    split at parsed
    · contradiction
    next found =>
      split at parsed
      · contradiction
      · cases parsed
        cases member
        unfold readPosition? at found
        split at found
        · simpa using (Option.filter_eq_some_iff.mp found).2
        · contradiction

theorem text_ne_empty (filled : s.property ≠ "") : s.text ≠ "" := by
  intro empty
  unfold text at empty
  split at empty
  · have characters := congrArg String.toList empty
    simp at characters
  · exact filled empty

end PathStep

namespace Path

variable {path : String} {steps : List PathStep}

/-- The steps of a path are read again from their texts. -/
theorem isReadable_of_read (parsed : read path = .ok steps) : ∀ s ∈ steps, s.IsReadable := by
  intro s member
  obtain ⟨part, -, readable⟩ := exists_of_mem_mapM (read_eq_ok parsed) member
  have named : s.property ∈ steps.map (·.property) := List.mem_map_of_mem member
  obtain ⟨other, -, isPart⟩ := exists_isPart (parts_of_read parsed).2 named
  exact ⟨filled_of_read parsed _ named, unopened_of_read parsed _ named, isPart.whole_property,
    PathStep.position_lt_of_read readable⟩

theorem split_text (nonempty : steps ≠ []) (whole : ∀ s ∈ steps, '.' ∉ s.property.toList) :
    Text.split '.' (text steps) = steps.map PathStep.text := by
  refine Text.split_intercalate (List.map_eq_nil_iff.not.mpr nonempty) fun part member => ?_
  obtain ⟨s, inside, rfl⟩ := List.mem_map.mp member
  exact (PathStep.isPart_text (whole s inside)).whole

theorem read_text (nonempty : steps ≠ []) (readable : ∀ s ∈ steps, s.IsReadable) : read (text steps) = .ok steps := by
  have filled : (text steps).isEmpty = false := by
    rw [text, isEmpty_intercalate fun part member => ?_]
    · simpa using nonempty
    · obtain ⟨s, inside, rfl⟩ := List.mem_map.mp member
      exact PathStep.text_ne_empty (readable s inside).filled
  have parsed : (steps.map PathStep.text).mapM PathStep.read = .ok steps := by
    have each : ∀ s ∈ steps, (PathStep.read ∘ PathStep.text) s = .ok (id s) := fun s inside =>
      (readable s inside).read_text
    rw [List.mapM_map]
    simpa using mapM_eq_ok each
  rw [read, filled, split_text nonempty fun s inside => (readable s inside).whole]
  exact parsed

/-- The node and the property of a path that is read make up the path again. -/
theorem child_node_property (parsed : read path = .ok steps) : child (node path) (property path) = path := by
  obtain ⟨-, ⟨root, same⟩ | same⟩ := splitProperty_cases path
  · rw [child, root]
    exact same.symm
  · have above : node path ≠ "" := by
      intro root
      rw [root] at same
      obtain ⟨part, rest, parts⟩ := List.exists_cons_of_ne_nil (Text.split_ne_nil '.' path)
      have dotted : path.toList = '.' :: (property path).toList := by
        rw [← String.toList_inj, String.toList_append, String.toList_append] at same
        exact same
      have first : part = "" := by
        rw [Text.split, dotted, Text.splitCharacters, if_pos rfl, List.map_cons] at parts
        exact (List.cons.inj parts).1.symm
      obtain ⟨step, -, readable⟩ := exists_ok_of_mapM (read_eq_ok parsed) (parts ▸ List.mem_cons_self ..)
      rw [first] at readable
      contradiction
    rw [child, if_neg (by simpa [String.isEmpty_iff] using above)]
    exact same.symm

end Path

namespace View

variable {v : View} {row number : Nat} {path positional above : String} {steps : List PathStep} {step : PathStep}
  {place : Nat}

/-- The positional form of an address. Where a collection on the way lacks its position, the number of the row picks
the element of it in the only row. -/
inductive Positional (v : View) (row : Nat) (path : String) : Nat → String → Prop
  | given {steps : List PathStep} (parsed : Path.read path = .ok steps) (closed : v.openSteps "" 0 steps = []) :
      Positional v row path row path
  | element {steps : List PathStep} {place : Nat} (parsed : Path.read path = .ok steps)
      (opened : v.openSteps "" 0 steps = [place]) (single : v.rows.length = 1) :
      Positional v row path 0 (Path.text (steps.modify place fun step => { step with position := some row }))

theorem positional_of_resolve (found : v.resolve row path = .ok (number, positional)) :
    v.Positional row path number positional := by
  obtain ⟨steps, parsed, found⟩ := bind_eq_ok.mp found
  split at found
  next closed =>
    cases found
    exact .given parsed closed
  next place opened =>
    split at found
    next single =>
      cases found
      exact .element parsed opened single
    next => contradiction
  next => contradiction

theorem openSteps_cons (further : steps ≠ []) : v.openSteps above place (step :: steps) =
    if step.position.isNone && v.compiled.isCollection (Path.child above step.property) then
      place :: v.openSteps (Path.child above step.property) (place + 1) steps
    else v.openSteps (Path.child above step.property) (place + 1) steps := by
  cases steps with
  | nil => contradiction
  | cons next rest => rfl

theorem openSteps_modify (chosen : Nat) :
    v.openSteps above place (steps.modify chosen fun step => { step with position := some row }) =
      (v.openSteps above place steps).filter (· ≠ place + chosen) := by
  induction steps generalizing above place chosen with
  | nil => simp [openSteps]
  | cons step rest ih =>
      by_cases last : rest = []
      · subst last
        cases chosen <;> simp [openSteps]
      rw [openSteps_cons last]
      cases chosen with
      | zero =>
          have later : (v.openSteps (Path.child above step.property) (place + 1) rest).filter (· ≠ place + 0) =
              v.openSteps (Path.child above step.property) (place + 1) rest := by
            refine List.filter_eq_self.mpr fun found member => ?_
            have bound := (openSteps_lt member).1
            simp only [decide_eq_true_eq]
            omega
          rw [List.modify_zero_cons, openSteps_cons last]
          simp only [Option.isNone_some, Bool.false_and, Bool.false_eq_true, if_false]
          split
          · rw [List.filter_cons_of_neg (by simp), later]
          · exact later.symm
      | succ chosen =>
          have further : rest.modify chosen (fun step => { step with position := some row }) ≠ [] := by
            simpa [List.modify_eq_nil_iff] using last
          have shifted : place + (chosen + 1) = place + 1 + chosen := by omega
          rw [List.modify_succ_cons, openSteps_cons further, ih chosen, shifted]
          split
          · rw [List.filter_cons_of_pos (by simp; omega)]
          · rfl

theorem exists_of_mem_modify (member : step ∈ steps.modify place fun step => { step with position := some row }) :
    ∃ other ∈ steps, other.property = step.property := by
  have named : step.property ∈ steps.map (·.property) :=
    map_property_modify steps place (some row) ▸ List.mem_map_of_mem member
  exact List.mem_map.mp named

theorem node_of_opened (parsed : Path.read path = .ok steps) (opened : place ∈ v.openSteps "" 0 steps) :
    ∃ init last, steps = init ++ [last] ∧ place < init.length ∧
      Path.node (Path.text (steps.modify place fun step => { step with position := some row })) =
        Path.text (init.modify place fun step => { step with position := some row }) := by
  have early := (openSteps_lt opened).2
  have readable := Path.isReadable_of_read parsed
  obtain ⟨init, last, rfl⟩ := (List.eq_nil_or_concat' steps).resolve_left (by rintro rfl; simp at early)
  have inside : place < init.length := by simpa using early
  refine ⟨init, last, rfl, inside, ?_⟩
  have filled : ∀ part ∈ (init.modify place fun step => { step with position := some row }).map PathStep.text,
      part ≠ "" := by
    intro part member
    obtain ⟨step, inside, rfl⟩ := List.mem_map.mp member
    obtain ⟨other, there, same⟩ := exists_of_mem_modify inside
    exact PathStep.text_ne_empty (same ▸ (readable other (List.mem_append_left _ there)).filled)
  have whole : '.' ∉ last.text.toList := (PathStep.isPart_text (readable last (by simp)).whole).whole
  rw [Path.modify_concat inside, Path.text, List.map_append, List.map_singleton, Path.intercalate_concat filled,
    Path.node, Path.splitProperty_child _ whole]
  rfl

theorem isReadable_modify (readable : ∀ s ∈ steps, s.IsReadable) (bounded : row < 2 ^ 64) :
    ∀ s ∈ steps.modify place fun step => { step with position := some row }, s.IsReadable := by
  induction steps generalizing place with
  | nil => simp
  | cons step rest ih =>
      have first := readable step (List.mem_cons_self ..)
      have others : ∀ s ∈ rest, s.IsReadable := fun s later => readable s (List.mem_cons_of_mem _ later)
      intro s member
      cases place with
      | zero =>
          rw [List.modify_zero_cons] at member
          rcases List.mem_cons.mp member with rfl | later
          · exact ⟨first.filled, first.unopened, first.whole, fun position same => by cases same; exact bounded⟩
          · exact others s later
      | succ place =>
          rw [List.modify_succ_cons] at member
          rcases List.mem_cons.mp member with rfl | later
          · exact first
          · exact ih others s later

/-- The number of a row that picks an element is an index, where the node can be read. -/
theorem bounded_of_opened {property : String} {slot : Place} (parsed : Path.read path = .ok steps)
    (opened : place ∈ v.openSteps "" 0 steps)
    (placed : Path.place? (Path.node (Path.text (steps.modify place fun step => { step with position := some row })))
      property = some slot) : row < 2 ^ 64 := by
  obtain ⟨init, last, rfl, inside, node⟩ := @node_of_opened v row path steps place parsed opened
  have readable := Path.isReadable_of_read parsed
  have whole : ∀ s ∈ init.modify place fun step => { step with position := some row }, '.' ∉ s.property.toList := by
    intro s member
    obtain ⟨other, there, same⟩ := exists_of_mem_modify member
    exact same ▸ (readable other (List.mem_append_left _ there)).whole
  have chosen : (init.modify place fun step => { step with position := some row })[place]? =
      some { init[place] with position := some row } := by
    rw [List.getElem?_modify_eq, List.getElem?_eq_getElem inside]
    rfl
  have member := List.mem_of_getElem? chosen
  have nonempty : (init.modify place fun step => { step with position := some row }) ≠ [] := List.ne_nil_of_mem member
  rw [node] at placed
  generalize init.modify place (fun step => { step with position := some row }) = walked at *
  unfold Path.place? at placed
  split at placed
  next root =>
    have parts := Path.split_text nonempty whole
    rw [String.isEmpty_iff.mp root] at parts
    have empty : PathStep.text { init[place] with position := some row } ∈ Text.split '.' "" :=
      parts ▸ List.mem_map_of_mem member
    have filled := PathStep.text_ne_empty (s := { init[place] with position := some row })
      (readable _ (List.mem_append_left _ (List.getElem_mem inside))).filled
    exact absurd (List.mem_singleton.mp empty) filled
  next =>
    obtain ⟨others, read, -⟩ := Option.map_eq_some_iff.mp placed
    have each := Path.read_eq_ok (eq_ok_of_toOption read)
    rw [Path.split_text nonempty whole] at each
    obtain ⟨step, -, parsedAgain⟩ := exists_ok_of_mapM each (List.mem_map_of_mem member)
    have given := readable _ (List.mem_append_left _ (List.getElem_mem inside))
    rw [PathStep.read_text_position given.unopened given.filled] at parsedAgain
    by_contra unbounded
    rw [if_neg unbounded] at parsedAgain
    contradiction

/-- The positional form of an address can be read, and lacks no position. -/
theorem read_positional {property : String} {slot : Place} (form : v.Positional row path number positional)
    (placed : Path.place? (Path.node positional) property = some slot) :
    ∃ others, Path.read positional = .ok others ∧ v.openSteps "" 0 others = [] := by
  cases form with
  | given parsed closed => exact ⟨_, parsed, closed⟩
  | @element steps place parsed opened single =>
      have member : place ∈ v.openSteps "" 0 steps := opened ▸ List.mem_singleton_self place
      have bounded := bounded_of_opened parsed member placed
      have nonempty : (steps.modify place fun step => { step with position := some row }) ≠ [] := by
        have early := (openSteps_lt member).2
        intro none
        rw [List.modify_eq_nil_iff] at none
        rw [none] at early
        simp at early
      refine ⟨_, Path.read_text nonempty (isReadable_modify (Path.isReadable_of_read parsed) bounded), ?_⟩
      rw [openSteps_modify, opened]
      simp

/-- The positional form of an address is resolved to itself. -/
theorem resolve_positional {others : List PathStep} (parsed : Path.read positional = .ok others)
    (closed : v.openSteps "" 0 others = []) : v.resolve number positional = .ok (number, positional) := by
  simp only [resolve, parsed, closed, bind, Except.bind]
  rfl

end View

end ViewEngine
