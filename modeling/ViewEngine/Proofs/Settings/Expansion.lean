import Mathlib.Data.List.TakeWhile
import Mathlib.Data.String.Basic
import ViewEngine.Settings.Expansion

/-!
What the references of a text are, by a grammar, and that expansion replaces each of them and keeps all else.
A text is cut from left to right: where a reference begins it is taken, with the longest name if no
braces end it, and elsewhere one character is. This leaves one way to cut each text.
-/

namespace ViewEngine.Expansion

def IsName : List Char → Prop
  | [] => False
  | c :: rest => (c.isAlpha = true ∨ c = '_') ∧ ∀ d ∈ rest, d.isAlphanum = true ∨ d = '_'

inductive Refers : List Char → List Char → List Char → Prop where
  | braced {name rest : List Char} (isName : IsName name) :
      Refers ('$' :: '{' :: (name ++ '}' :: rest)) name rest
  | bare {name rest : List Char} (isName : IsName name)
      (longest : ∀ other others, IsName other → other ++ others = name ++ rest →
        other.length ≤ name.length) :
      Refers ('$' :: (name ++ rest)) name rest

/-- The cuts of a text into references and, where none begins, characters. -/
inductive IsCut : List Char → List Piece → Prop where
  | nil : IsCut [] []
  | reference {characters name rest : List Char} {pieces : List Piece}
      (refers : Refers characters name rest) (below : IsCut rest pieces) :
      IsCut characters (.reference (String.ofList name) :: pieces)
  | literal {c : Char} {characters : List Char} {pieces : List Piece}
      (plain : ∀ name rest, ¬ Refers (c :: characters) name rest) (below : IsCut characters pieces) :
      IsCut (c :: characters) (.literal c :: pieces)

/-- The ways to write a piece. -/
def Piece.IsSpelled : Piece → List Char → Prop
  | .literal c, spelled => spelled = [c]
  | .reference name, spelled =>
    spelled = '$' :: name.toList ∨ spelled = '$' :: '{' :: (name.toList ++ ['}'])

def Piece.name? : Piece → Option String
  | .literal _ => none
  | .reference name => some name

def firstUnset? (environment : Environment) (cut : List Piece) : Option String :=
  (cut.filterMap Piece.name?).find? fun name => (environment name).isNone

/-- What a piece becomes, where its variable is set. -/
def filled (environment : Environment) : Piece → List Char
  | .literal c => [c]
  | .reference name => ((environment name).getD "").toList

section Names

variable {name rest characters : List Char}

theorem startsName_iff (c : Char) : startsName c = true ↔ c.isAlpha = true ∨ c = '_' := by
  rw [startsName, Bool.or_eq_true, beq_iff_eq]

theorem continuesName_iff (c : Char) : continuesName c = true ↔ c.isAlphanum = true ∨ c = '_' := by
  rw [continuesName, Bool.or_eq_true, beq_iff_eq]

theorem isName_cons (c : Char) (rest : List Char) :
    IsName (c :: rest) ↔ startsName c = true ∧ ∀ d ∈ rest, continuesName d = true := by
  simp only [IsName, startsName_iff, continuesName_iff]

theorem IsName.nonempty (isName : IsName name) : name ≠ [] := by
  rintro rfl
  exact isName

theorem IsName.extend (isName : IsName name) {c : Char} (continues : continuesName c = true) :
    IsName (name ++ [c]) := by
  cases name with
  | nil => exact isName.elim
  | cons first others =>
      rw [isName_cons] at isName
      rw [List.cons_append, isName_cons]
      refine ⟨isName.1, List.forall_mem_append.mpr ⟨isName.2, ?_⟩⟩
      simpa using continues

def Ends (rest : List Char) : Prop :=
  ∀ c ∈ rest.head?, continuesName c = false

theorem longest_iff_ends (isName : IsName name) :
    (∀ other others, IsName other → other ++ others = name ++ rest → other.length ≤ name.length) ↔
      Ends rest := by
  constructor
  · intro longest c first
    by_contra continues
    obtain ⟨others, rfl⟩ : ∃ others, rest = c :: others := List.head?_eq_some_iff.mp first
    have bound := longest (name ++ [c]) others (isName.extend (Bool.not_eq_false _ ▸ continues))
      (List.append_assoc ..)
    simp at bound
  · intro ends other others isOther same
    by_contra longer
    obtain ⟨more, rfl⟩ : name <+: other :=
      List.prefix_of_prefix_length_le ⟨rest, rfl⟩ ⟨others, same⟩ (by omega)
    rw [List.append_assoc, List.append_cancel_left_eq] at same
    cases more with
    | nil => simp at longer
    | cons c more =>
        have continues : continuesName c = true := by
          cases name with
          | nil => exact isName.elim
          | cons first name =>
              rw [List.cons_append, isName_cons] at isOther
              exact isOther.2 c (List.mem_append_right _ (List.mem_cons_self ..))
        subst same
        have stops := ends c rfl
        rw [stops] at continues
        contradiction

theorem splitName_of_isName (isName : IsName name) (ends : Ends rest) :
    splitName (name ++ rest) = (name, rest) := by
  cases name with
  | nil => exact isName.elim
  | cons c name =>
      rw [isName_cons] at isName
      have taken : rest.takeWhile continuesName = [] ∧ rest.dropWhile continuesName = rest := by
        cases rest with
        | nil => exact ⟨rfl, rfl⟩
        | cons d rest =>
            have stops := ends d rfl
            simp [stops]
      rw [List.cons_append, splitName, if_pos isName.1, List.takeWhile_append_of_pos isName.2,
        List.dropWhile_append_of_pos isName.2, taken.1, taken.2, List.append_nil]

theorem splitName_append (characters : List Char) :
    (splitName characters).1 ++ (splitName characters).2 = characters := by
  unfold splitName
  split
  · rfl
  · split
    · rw [List.cons_append, List.takeWhile_append_dropWhile]
    · rfl

theorem ends_dropWhile (characters : List Char) : Ends (characters.dropWhile continuesName) := by
  intro c first
  have stops := List.head?_dropWhile_not continuesName characters
  rw [Option.mem_def.mp first] at stops
  simpa using stops

theorem splitName_isName (nonempty : (splitName characters).1 ≠ []) :
    IsName (splitName characters).1 ∧ Ends (splitName characters).2 := by
  unfold splitName at nonempty ⊢
  split at nonempty
  · contradiction
  · split at nonempty
    next starts =>
      rw [if_pos starts, isName_cons]
      exact ⟨⟨starts, fun d member => List.mem_takeWhile_imp member⟩, ends_dropWhile _⟩
    next => contradiction

end Names

section References

variable {characters name rest : List Char}

theorem ends_brace : Ends ('}' :: rest) := by
  rintro c ⟨⟩
  rfl

theorem refers_bare_iff (unbraced : characters.head? ≠ some '{') :
    Refers ('$' :: characters) name rest ↔
      IsName name ∧ Ends rest ∧ characters = name ++ rest := by
  constructor
  · rintro (_ | ⟨isName, longest⟩)
    · simp at unbraced
    · exact ⟨isName, (longest_iff_ends isName).mp longest, rfl⟩
  · rintro ⟨isName, ends, rfl⟩
    exact .bare isName ((longest_iff_ends isName).mpr ends)

theorem refers_braced_iff :
    Refers ('$' :: '{' :: characters) name rest ↔ IsName name ∧ characters = name ++ '}' :: rest := by
  constructor
  · intro refers
    generalize same : '$' :: '{' :: characters = whole at refers
    cases refers with
    | braced isName =>
        cases same
        exact ⟨isName, rfl⟩
    | bare isName _ =>
        cases name with
        | nil => exact isName.elim
        | cons c name =>
            cases same
            have starts := isName.1
            contradiction
  · rintro ⟨isName, rfl⟩
    exact .braced isName

theorem refers_iff :
    Refers ('$' :: characters) name rest ↔
      reference? characters = some (String.ofList name, rest) := by
  unfold reference?
  split
  next inner =>
    rw [refers_braced_iff]
    constructor
    · rintro ⟨isName, rfl⟩
      have nonempty := isName.nonempty
      simp [splitName_of_isName isName ends_brace, nonempty]
    · intro found
      split at found
      next braced after parts =>
        split at found
        · contradiction
        next nonempty =>
          simp only [Option.some.injEq, Prod.mk.injEq, String.ofList_inj] at found
          obtain ⟨rfl, rfl⟩ := found
          have whole := splitName_append inner
          have isName : IsName (splitName inner).1 :=
            (splitName_isName (by rw [parts]; simpa using nonempty)).1
          rw [parts] at whole isName
          exact ⟨isName, whole.symm⟩
      · contradiction
  next unbraced =>
    rw [refers_bare_iff (by
      intro brace
      obtain ⟨inner, rfl⟩ := List.head?_eq_some_iff.mp brace
      exact unbraced inner rfl)]
    constructor
    · rintro ⟨isName, ends, rfl⟩
      have nonempty := isName.nonempty
      simp [splitName_of_isName isName ends, nonempty]
    · intro found
      dsimp only at found
      split at found
      · contradiction
      next nonempty =>
        simp only [Option.some.injEq, Prod.mk.injEq, String.ofList_inj] at found
        obtain ⟨rfl, rfl⟩ := found
        have found : (splitName characters).1 ≠ [] := by simpa using nonempty
        obtain ⟨isName, ends⟩ := splitName_isName found
        exact ⟨isName, ends, (splitName_append characters).symm⟩

end References

section Cuts

variable {environment : Environment} {characters rest name others other : List Char} {cut : List Piece}

theorem Refers.dollar {first : Char} (refers : Refers (first :: characters) name rest) : first = '$' := by
  cases refers <;> rfl

theorem Refers.unique (refers : Refers characters name rest) (again : Refers characters other others) :
    name = other ∧ rest = others := by
  obtain ⟨after, rfl⟩ : ∃ after, characters = '$' :: after := by
    cases refers <;> exact ⟨_, rfl⟩
  have same := (refers_iff.mp refers).symm.trans (refers_iff.mp again)
  simpa only [Option.some.injEq, Prod.mk.injEq, String.ofList_inj] using same

theorem IsCut.unique {again : List Piece} (isCut : IsCut characters cut) (isAgain : IsCut characters again) :
    cut = again := by
  induction isCut generalizing again with
  | nil =>
      cases isAgain with
      | nil => rfl
      | reference refers _ => nomatch refers
  | reference refers _ ih =>
      cases isAgain with
      | nil => nomatch refers
      | reference others below =>
          obtain ⟨rfl, rfl⟩ := refers.unique others
          rw [ih below]
      | literal plain _ => exact absurd refers (plain _ _)
  | literal plain _ ih =>
      cases isAgain with
      | reference others _ => exact absurd others (plain _ _)
      | literal _ below => rw [ih below]

theorem isCut_pieces (characters : List Char) : IsCut characters (pieces characters) := by
  fun_induction pieces characters with
  | case1 => exact .nil
  | case2 characters name rest found ih =>
      have refers : Refers ('$' :: characters) name.toList rest :=
        refers_iff.mpr (by rw [found, String.ofList_toList])
      simpa only [String.ofList_toList] using IsCut.reference refers ih
  | case3 characters missing ih =>
      refine .literal (fun name rest refers => ?_) ih
      rw [refers_iff.mp refers] at missing
      contradiction
  | case4 c characters plain ih =>
      exact .literal (fun name rest refers => plain refers.dollar) ih

theorem Refers.isSpelled (refers : Refers characters name rest) :
    ∃ spelled, Piece.IsSpelled (.reference (String.ofList name)) spelled ∧ spelled ++ rest = characters := by
  cases refers with
  | braced isName => exact ⟨_, .inr rfl, by simp⟩
  | bare isName longest => exact ⟨_, .inl rfl, by simp⟩

theorem IsCut.isSpelled (isCut : IsCut characters cut) :
    ∃ spelled, List.Forall₂ Piece.IsSpelled cut spelled ∧ spelled.flatten = characters := by
  induction isCut with
  | nil => exact ⟨[], .nil, rfl⟩
  | reference refers _ ih =>
      obtain ⟨first, isFirst, rfl⟩ := refers.isSpelled
      obtain ⟨below, are, rfl⟩ := ih
      exact ⟨first :: below, .cons isFirst are, List.flatten_cons⟩
  | @literal c _ _ _ _ ih =>
      obtain ⟨below, are, rfl⟩ := ih
      exact ⟨[c] :: below, .cons rfl are, List.flatten_cons⟩

theorem joined_eq (environment : Environment) (cut : List Piece) :
    joined environment cut = match firstUnset? environment cut with
      | some name => .error (.missingVariable name)
      | none => .ok (cut.flatMap (filled environment)) := by
  induction cut with
  | nil => rfl
  | cons piece rest ih =>
      cases piece with
      | literal c =>
          have same : firstUnset? environment (.literal c :: rest) = firstUnset? environment rest := rfl
          rw [joined, ih, same]
          cases firstUnset? environment rest <;> rfl
      | reference name =>
          rw [joined, pieceText, ih]
          cases held : environment name with
          | none =>
              have first : firstUnset? environment (.reference name :: rest) = some name :=
                List.find?_cons_of_pos (by rw [held]; rfl)
              rw [first]
              rfl
          | some value =>
              have same : firstUnset? environment (.reference name :: rest) = firstUnset? environment rest :=
                List.find?_cons_of_neg (by rw [held]; exact Bool.false_ne_true)
              rw [same]
              cases firstUnset? environment rest with
              | some missing => rfl
              | none => simp [filled, held, bind, Except.bind]

end Cuts

/-- Each text has one cut, whose pieces make up the text. Expansion fails with the first variable of the cut that is
not set; if all are set, it yields the text with each reference replaced by the value of its variable, as it is, and
with all other characters as they were. -/
theorem references_are_replaced (environment : Environment) (text : String) :
    ∃ cut, IsCut text.toList cut ∧ (∀ other, IsCut text.toList other → other = cut) ∧
      (∃ spelled, List.Forall₂ Piece.IsSpelled cut spelled ∧ spelled.flatten = text.toList) ∧
      expandReferences environment text = match firstUnset? environment cut with
        | some name => .error (.missingVariable name)
        | none => .ok (String.ofList (cut.flatMap (filled environment))) := by
  have isCut := isCut_pieces text.toList
  refine ⟨pieces text.toList, isCut, fun other isOther => isOther.unique isCut, isCut.isSpelled, ?_⟩
  rw [expandReferences, joined_eq]
  cases firstUnset? environment (pieces text.toList) <;> rfl

example : expandReferences (fun name => if name = "A" then some "$A" else none) "$$\x7bA\x7d$A $\x7bA- $" =
    .ok "$$A$A $\x7bA- $" := by
  cbv

end ViewEngine.Expansion
