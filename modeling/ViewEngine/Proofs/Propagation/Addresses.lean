import ViewEngine.Proofs.Compilation.Paths
import ViewEngine.Proofs.Propagation.Edits

namespace ViewEngine

def IsName (property : String) : Prop :=
  IsStep property ∧ '[' ∉ property.toList ∧ ']' ∉ property.toList

instance (property : String) : Decidable (IsName property) :=
  inferInstanceAs (Decidable (_ ∧ _))

structure IsPart (part property : String) : Prop where
  whole : '.' ∉ part.toList
  shape : part = property ∨
    ∃ number, ']' ∉ number ∧ part.toList = property.toList ++ ('[' :: number ++ [']'])

theorem IsPart.whole_property {part property : String} (isPart : IsPart part property) : '.' ∉ property.toList := by
  rcases isPart.shape with rfl | ⟨number, -, shape⟩
  · exact isPart.whole
  · intro member
    refine isPart.whole ?_
    rw [shape]
    exact List.mem_append_left _ member

theorem exists_isPart {parts names : List String} {name : String} (each : List.Forall₂ IsPart parts names)
    (member : name ∈ names) : ∃ part ∈ parts, IsPart part name := by
  induction each with
  | nil => contradiction
  | @cons part other parts names isPart each ih =>
      rcases List.mem_cons.mp member with rfl | later
      · exact ⟨part, List.mem_cons_self .., isPart⟩
      · obtain ⟨part, inside, isPart⟩ := ih later
        exact ⟨part, List.mem_cons_of_mem _ inside, isPart⟩

namespace PathStep

theorem readPosition?_eq_some {characters : List Char} {position : Nat}
    (found : readPosition? characters = some position) :
    ∃ number, ']' ∉ number ∧ characters = number ++ [']'] := by
  unfold readPosition? at found
  split at found
  next reversed same =>
    refine ⟨reversed.reverse, fun bracket => ?_, ?_⟩
    rotate_left
    · rw [← List.reverse_reverse characters, same, List.reverse_cons]
    -- A number is made of digits, behind a sign.
    have isDigit {digits : List Char} {count : Nat} (read : Number.allDigits? digits = some count) : ']' ∉ digits := by
      unfold Number.allDigits? at read
      split at read
      · contradiction
      next all =>
        simp only [Bool.or_eq_true, Bool.not_eq_true', not_or, Bool.not_eq_false] at all
        exact fun member => absurd (List.all_eq_true.mp all.2 _ member) (by decide)
    obtain ⟨read, -⟩ := Option.filter_eq_some_iff.mp found
    rw [String.toList_ofList] at read
    split at read
    next rest signed =>
      rw [signed] at bracket
      exact isDigit read (List.mem_of_ne_of_mem (by decide) bracket)
    next => exact isDigit read bracket
  next => contradiction

theorem isPart_of_read {part : String} {step : PathStep} (whole : '.' ∉ part.toList)
    (parsed : read part = .ok step) : IsPart part step.property := by
  refine ⟨whole, ?_⟩
  unfold read at parsed
  dsimp only at parsed
  split at parsed
  next =>
    split at parsed
    · contradiction
    · cases parsed
      exact .inl rfl
  next bracket rest cut =>
    have isBracket : bracket = '[' := by
      have fails := List.head?_dropWhile_not (· != '[') part.toList
      rw [cut] at fails
      simpa using fails
    split at parsed
    · contradiction
    next position found =>
      split at parsed
      · contradiction
      · cases parsed
        obtain ⟨number, closed, rfl⟩ := readPosition?_eq_some found
        refine .inr ⟨number, closed, ?_⟩
        rw [isBracket] at cut
        rw [String.toList_ofList, List.cons_append, ← cut, List.takeWhile_append_dropWhile]

theorem property_of_read {part : String} {step : PathStep} (parsed : read part = .ok step) :
    step.property.toList = part.toList.takeWhile (· != '[') := by
  unfold read at parsed
  dsimp only at parsed
  split at parsed
  next cut =>
    split at parsed
    · contradiction
    · cases parsed
      have whole := List.takeWhile_append_dropWhile (p := (· != '[')) (l := part.toList)
      rw [cut, List.append_nil] at whole
      exact whole.symm
  next =>
    split at parsed
    · contradiction
    · split at parsed
      · contradiction
      · cases parsed
        exact String.toList_ofList

theorem property_eq_of_isPart {part name : String} {step : PathStep} (isPart : IsPart part name)
    (isName : IsName name) (parsed : read part = .ok step) : step.property = name := by
  have plain : ∀ c ∈ name.toList, (c != '[') = true := by
    intro c member
    rw [bne_iff_ne]
    rintro rfl
    exact isName.2.1 member
  rw [← String.toList_inj, property_of_read parsed]
  rcases isPart.shape with rfl | ⟨number, -, shape⟩
  · exact List.takeWhile_eq_self_iff.mpr plain
  · rw [shape, List.takeWhile_append_of_pos plain]
    simp

theorem isPart_text {step : PathStep} (whole : '.' ∉ step.property.toList) : IsPart step.text step.property := by
  obtain ⟨property, position⟩ := step
  cases position with
  | none => exact ⟨whole, .inl rfl⟩
  | some position =>
      have digit : ∀ c ∈ (toString position).toList, c.isDigit = true := by
        intro c member
        rw [Nat.toString_eq_repr, Nat.toList_repr] at member
        exact Nat.isDigit_of_mem_toDigits (by decide) (by decide) member
      have characters : (PathStep.text ⟨property, some position⟩).toList =
          property.toList ++ ('[' :: (toString position).toList ++ [']']) := by
        simp [text]
      refine ⟨?_, .inr ⟨_, fun bracket => absurd (digit _ bracket) (by decide), characters⟩⟩
      rw [characters]
      intro dot
      rcases List.mem_append.mp dot with inProperty | behind
      · exact whole inProperty
      · rcases List.mem_append.mp behind with opened | closed
        · exact absurd (digit _ (List.mem_of_ne_of_mem (by decide) opened)) (by decide)
        · exact absurd (List.mem_singleton.mp closed) (by decide)

end PathStep

namespace Path

variable {name part : String} {parts names : List String} {characters : List Char}

theorem outsideBrackets_append (plain : '[' ∉ characters ∧ ']' ∉ characters) (rest : List Char) :
    outsideBrackets false (characters ++ rest) = characters ++ outsideBrackets false rest := by
  induction characters with
  | nil => rfl
  | cons c others ih =>
      simp only [List.mem_cons, not_or] at plain
      rw [List.cons_append, outsideBrackets, ih ⟨plain.1.2, plain.2.2⟩, List.cons_append]
      · exact Ne.symm plain.1.1
      · exact Ne.symm plain.2.1

theorem outsideBrackets_closed (open' : ']' ∉ characters) (rest : List Char) :
    outsideBrackets true (characters ++ ']' :: rest) = outsideBrackets false rest := by
  induction characters with
  | nil => simp [outsideBrackets]
  | cons c others ih =>
      simp only [List.mem_cons, not_or] at open'
      by_cases bracket : c = '['
      · rw [bracket, List.cons_append, outsideBrackets]
        exact ih open'.2
      · rw [List.cons_append, outsideBrackets]
        · exact ih open'.2
        · exact bracket
        · exact Ne.symm open'.1

theorem outsideBrackets_part (isPart : IsPart part name) (isName : IsName name) (rest : List Char) :
    outsideBrackets false (part.toList ++ rest) = name.toList ++ outsideBrackets false rest := by
  rcases isPart.shape with rfl | ⟨number, closed, shape⟩
  · exact outsideBrackets_append isName.2 rest
  · rw [shape, List.append_assoc, outsideBrackets_append isName.2, List.append_assoc, List.cons_append, outsideBrackets,
      List.singleton_append, outsideBrackets_closed closed]

theorem outsideBrackets_sublist (inside : Bool) (characters : List Char) :
    (outsideBrackets inside characters).Sublist characters := by
  fun_induction outsideBrackets inside characters with
  | case1 => exact List.Sublist.refl []
  | case2 _ _ ih | case3 _ _ ih | case4 _ _ _ _ ih => exact ih.cons _
  | case5 _ _ _ _ ih => exact ih.cons_cons _

theorem outsideBrackets_intercalate (each : List.Forall₂ IsPart parts names) (isName : ∀ name ∈ names, IsName name)
    (rest : List Char) : outsideBrackets false ((".".intercalate parts).toList ++ rest) =
      (".".intercalate names).toList ++ outsideBrackets false rest := by
  induction each with
  | nil => rfl
  | @cons part name parts names isPart each ih =>
      have ih := ih fun other later => isName other (List.mem_cons_of_mem _ later)
      have first := outsideBrackets_part isPart (isName name (List.mem_cons_self ..))
      cases each with
      | nil => simpa using first rest
      | cons next others =>
          rw [String.intercalate_cons_cons, String.intercalate_cons_cons, String.toList_append, String.toList_append,
            List.append_assoc, List.append_assoc, first, String.toList_append, String.toList_append, List.append_assoc,
            List.append_assoc, ← ih]
          rfl

/-- Without the positions of its parts a path is that of their properties. -/
theorem withoutPositions_intercalate (each : List.Forall₂ IsPart parts names) (isName : ∀ name ∈ names, IsName name) :
    withoutPositions (".".intercalate parts) = ".".intercalate names := by
  have characters := outsideBrackets_intercalate each isName []
  rw [List.append_nil, outsideBrackets, List.append_nil] at characters
  rw [withoutPositions, characters, String.ofList_toList]

theorem isEmpty_intercalate (filled : ∀ part ∈ parts, part ≠ "") :
    (".".intercalate parts).isEmpty = parts.isEmpty := by
  cases parts with
  | nil => rfl
  | cons first rest =>
      have first := filled first (List.mem_cons_self ..)
      cases rest with
      | nil => simpa [String.isEmpty_iff, Bool.eq_false_iff] using first
      | cons next others =>
          rw [String.intercalate_cons_cons]
          simp

theorem properties_intercalate (isStep : ∀ name ∈ names, IsStep name) :
    properties (".".intercalate names) = names := by
  cases names with
  | nil => rfl
  | cons first rest =>
      have filled : (".".intercalate (first :: rest)).isEmpty = false :=
        isEmpty_intercalate fun name member => (isStep name member).1
      rw [properties, filled]
      exact Text.split_intercalate (List.cons_ne_nil _ _) fun name member => (isStep name member).2

theorem intercalate_properties (path : String) : ".".intercalate (properties path) = path := by
  unfold properties
  split
  next root => exact (String.isEmpty_iff.mp root).symm
  next => exact Text.intercalate_split '.' path

theorem splitProperty_of_whole (whole : '.' ∉ name.toList) : splitProperty name = ("", name) := by
  have plain : ∀ c ∈ name.toList.reverse, (c != '.') = true := by
    intro c member
    rw [bne_iff_ne]
    rintro rfl
    exact whole (List.mem_reverse.mp member)
  rw [splitProperty, Text.splitLast?, List.dropWhile_eq_nil_iff.mpr plain]
  rfl

theorem splitProperty_append (above : String) (whole : '.' ∉ name.toList) :
    splitProperty (above ++ "." ++ name) = (above, name) := by
  have plain : ∀ c ∈ name.toList.reverse, (c != '.') = true := by
    intro c member
    rw [bne_iff_ne]
    rintro rfl
    exact whole (List.mem_reverse.mp member)
  have reversed : (above ++ "." ++ name).toList.reverse =
      name.toList.reverse ++ '.' :: above.toList.reverse := by
    simp
  rw [splitProperty, Text.splitLast?, reversed, List.dropWhile_append_of_pos plain, List.takeWhile_append_of_pos plain]
  simp

/-- The last part of a path stands behind the node. -/
theorem splitProperty_child (above : String) (whole : '.' ∉ name.toList) :
    splitProperty (child above name) = (above, name) := by
  unfold child
  split
  next root => rw [String.isEmpty_iff.mp root, splitProperty_of_whole whole]
  next => exact splitProperty_append above whole

/-- A path is a property, or a property behind a node. -/
theorem splitProperty_cases (path : String) : '.' ∉ (property path).toList ∧
    ((node path = "" ∧ path = property path) ∨ path = node path ++ "." ++ property path) := by
  have parts := List.takeWhile_append_dropWhile (p := (· != '.')) (l := path.toList.reverse)
  have whole : '.' ∉ path.toList.reverse.takeWhile (· != '.') := fun member => by
    simpa using List.mem_takeWhile_imp member
  unfold property node splitProperty Text.splitLast?
  dsimp only
  split
  next none =>
    rw [none, List.append_nil] at parts
    rw [parts] at whole
    exact ⟨fun member => whole (List.mem_reverse.mpr member), .inl ⟨rfl, rfl⟩⟩
  next separator before found =>
    have isDot : separator = '.' := by
      have fails := List.head?_dropWhile_not (· != '.') path.toList.reverse
      rw [found] at fails
      simpa using fails
    refine ⟨?_, .inr ?_⟩
    · simpa using whole
    · rw [found, isDot] at parts
      rw [← String.toList_inj, ← List.reverse_inj]
      simpa using parts.symm

/-- A path is its last part, behind the node that its other parts lead to. -/
theorem intercalate_concat (filled : ∀ part ∈ parts, part ≠ "") (last : String) :
    ".".intercalate (parts ++ [last]) = child (".".intercalate parts) last := by
  rw [child, isEmpty_intercalate filled]
  cases parts with
  | nil => rfl
  | cons first rest =>
      rw [String.intercalate_append_of_ne_nil (List.cons_ne_nil _ _) (List.cons_ne_nil _ _), String.intercalate_singleton]
      rfl

theorem filled_of_parts (each : List.Forall₂ IsPart parts names) (isName : ∀ name ∈ names, IsName name) :
    ∀ part ∈ parts, part ≠ "" := by
  induction each with
  | nil => simp
  | @cons part name parts names isPart each ih =>
      intro other member
      rcases List.mem_cons.mp member with rfl | later
      · rintro rfl
        rcases isPart.shape with same | ⟨number, -, shape⟩
        · exact (isName name (List.mem_cons_self ..)).1.1 same.symm
        · simp at shape
      · exact ih (fun name later => isName name (List.mem_cons_of_mem _ later)) other later

/-- The node of a path without positions is the node of the path, without positions. -/
theorem node_withoutPositions {path : String} (each : List.Forall₂ IsPart parts names)
    (isName : ∀ name ∈ names, IsName name) (above : node path = ".".intercalate parts) :
    node (withoutPositions path) = ".".intercalate names := by
  obtain ⟨whole, shape⟩ := splitProperty_cases path
  have kept : '.' ∉ (withoutPositions (property path)).toList := by
    rw [withoutPositions, String.toList_ofList]
    exact fun member => whole ((outsideBrackets_sublist ..).subset member)
  rcases shape with ⟨root, same⟩ | same
  · have empty : names = [] := by
      have none := isEmpty_intercalate (filled_of_parts each isName)
      rw [← above, root] at none
      rw [List.isEmpty_iff.mp none.symm] at each
      exact List.forall₂_nil_left_iff.mp each
    rw [same, node, splitProperty_of_whole kept, empty]
    rfl
  · have behind : withoutPositions path = ".".intercalate names ++ "." ++ withoutPositions (property path) := by
      rw [← String.toList_inj, withoutPositions, String.toList_ofList]
      conv_lhs => rw [same, above]
      rw [String.append_assoc, String.toList_append, outsideBrackets_intercalate each isName]
      simp [withoutPositions, outsideBrackets]
    rw [behind, node, splitProperty_append _ kept]

theorem parts_of_read {path : String} {steps : List PathStep} (parsed : read path = .ok steps) :
    path = ".".intercalate (Text.split '.' path) ∧
      List.Forall₂ IsPart (Text.split '.' path) (steps.map (·.property)) := by
  refine ⟨(Text.intercalate_split '.' path).symm, ?_⟩
  have each := forall₂_of_mapM (read_eq_ok parsed)
  have whole : ∀ part ∈ Text.split '.' path, '.' ∉ part.toList := fun part member => Text.not_mem_of_mem_split member
  generalize Text.split '.' path = parts at each whole
  clear parsed
  induction each with
  | nil => exact .nil
  | cons parsed each ih =>
      exact .cons (PathStep.isPart_of_read (whole _ (List.mem_cons_self ..)) parsed)
        (ih fun part later => whole part (List.mem_cons_of_mem _ later))

theorem filled_of_read {path : String} {steps : List PathStep} (parsed : read path = .ok steps) :
    ∀ name ∈ steps.map (·.property), name ≠ "" := by
  rintro _ member rfl
  obtain ⟨step, inside, empty⟩ := List.mem_map.mp member
  obtain ⟨part, -, readable⟩ := exists_of_mem_mapM (read_eq_ok parsed) inside
  have none : (part.toList.takeWhile (· != '[')).isEmpty = true := by
    rw [← PathStep.property_of_read readable, empty]
    rfl
  unfold PathStep.read at readable
  simp only [none, if_true] at readable
  split at readable
  · contradiction
  · split at readable <;> contradiction

/-- The names on the way to a property, and the property, of a path that is read. -/
theorem properties_of_child {path above : String} {steps : List PathStep} (parsed : read path = .ok steps)
    (leads : ".".intercalate (steps.map (·.property)) = child above name) (whole : '.' ∉ name.toList) :
    steps.map (·.property) = properties above ++ [name] := by
  obtain ⟨-, each⟩ := parts_of_read parsed
  have nonempty : steps.map (·.property) ≠ [] := by
    intro none
    rw [none] at each
    exact Text.split_ne_nil '.' path (List.forall₂_nil_right_iff.mp each)
  have isStep : ∀ other ∈ steps.map (·.property), IsStep other := by
    intro other member
    obtain ⟨part, -, isPart⟩ := exists_isPart each member
    exact ⟨filled_of_read parsed other member, isPart.whole_property⟩
  rcases List.eq_nil_or_concat' (steps.map (·.property)) with none | ⟨front, last, same⟩
  · contradiction
  rw [same] at leads isStep ⊢
  have isStepFront : ∀ other ∈ front, IsStep other := fun other member => isStep other (List.mem_append_left _ member)
  have split : splitProperty (child above name) = (".".intercalate front, last) := by
    rw [← leads, intercalate_concat fun other member => (isStepFront other member).1]
    exact splitProperty_child _ (isStep last (List.mem_append_right _ (List.mem_singleton_self last))).2
  rw [splitProperty_child above whole] at split
  obtain ⟨rfl, rfl⟩ := Prod.mk.inj split
  rw [properties_intercalate isStepFront]

theorem unopened_of_read {path : String} {steps : List PathStep} (parsed : read path = .ok steps) :
    ∀ name ∈ steps.map (·.property), '[' ∉ name.toList := by
  intro name member bracket
  obtain ⟨step, inside, rfl⟩ := List.mem_map.mp member
  obtain ⟨part, -, readable⟩ := exists_of_mem_mapM (read_eq_ok parsed) inside
  rw [PathStep.property_of_read readable] at bracket
  simpa using List.mem_takeWhile_imp bracket

theorem node_property_of_parts {last : String} (each : List.Forall₂ IsPart parts (names ++ [last]))
    (isName : ∀ name ∈ names, IsName name) {path : String} (same : path = ".".intercalate parts)
    (plain : (property path).toList.contains '[' = false) :
    (∃ init, node path = ".".intercalate init ∧ List.Forall₂ IsPart init names) ∧ property path = last := by
  have front := List.forall₂_take_append parts names [last] each
  have back := List.forall₂_drop_append parts names [last] each
  rw [← List.take_append_drop names.length parts] at same
  generalize parts.take names.length = init at front same
  generalize parts.drop names.length = rest at back same
  obtain ⟨part, rest, isPart, none, rfl⟩ := List.forall₂_cons_right_iff.mp back
  obtain rfl := List.forall₂_nil_right_iff.mp none
  rw [intercalate_concat (filled_of_parts front isName)] at same
  have cut : splitProperty path = (".".intercalate init, part) := same ▸ splitProperty_child _ isPart.whole
  rw [property, cut] at plain
  refine ⟨⟨init, by rw [node, cut], front⟩, ?_⟩
  rw [property, cut]
  rcases isPart.shape with same | ⟨number, -, shape⟩
  · exact same
  · simp [shape] at plain

end Path

namespace View

variable {v : View} {row number : Nat} {path resolved name : String} {steps : List PathStep} {slot : Slot}

theorem map_property_modify (steps : List PathStep) (place : Nat) (position : Option Nat) :
    (steps.modify place fun step => { step with position := position }).map (·.property) =
      steps.map (·.property) := by
  induction steps generalizing place with
  | nil => simp
  | cons step rest ih =>
      cases place with
      | zero => rfl
      | succ place => simpa using ih place

theorem resolve_parts (found : v.resolve row path = .ok (number, resolved)) (parsed : Path.read path = .ok steps) :
    ∃ parts, resolved = ".".intercalate parts ∧ List.Forall₂ IsPart parts (steps.map (·.property)) := by
  obtain ⟨others, again, found⟩ := bind_eq_ok.mp found
  cases parsed.symm.trans again
  obtain ⟨same, each⟩ := Path.parts_of_read parsed
  split at found
  · cases found
    exact ⟨_, same, each⟩
  next place _ =>
    split at found
    · cases found
      refine ⟨_, rfl, ?_⟩
      have whole : ∀ step ∈ steps.modify place fun step => { step with position := some row },
          '.' ∉ step.property.toList := by
        intro step member
        have named : step.property ∈ steps.map (·.property) :=
          map_property_modify steps place (some row) ▸ List.mem_map_of_mem member
        obtain ⟨part, -, isPart⟩ := exists_isPart each named
        exact isPart.whole_property
      rw [← map_property_modify steps place (some row), List.forall₂_map_left_iff, List.forall₂_map_right_iff,
        List.forall₂_same]
      exact fun step member => PathStep.isPart_text (whole step member)
    · contradiction
  · contradiction

/-- The slot of a path with positions has parts for the properties above, and the last property. -/
theorem slot?_parts {names : List String} (named : v.slot? row path = some slot)
    (parsed : Path.read path = .ok steps) (same : steps.map (·.property) = names ++ [name])
    (isName : ∀ other ∈ names, IsName other) :
    (∃ parts, slot.node = ".".intercalate parts ∧ List.Forall₂ IsPart parts names) ∧ slot.property = name := by
  obtain ⟨resolved, found, node, property, plain, -⟩ := slot?_eq_some named
  obtain ⟨parts, joined, each⟩ := resolve_parts found parsed
  rw [property] at plain
  rw [node, property]
  exact Path.node_property_of_parts (same ▸ each) isName joined plain

end View

end ViewEngine
