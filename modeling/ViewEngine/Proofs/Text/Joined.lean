import ViewEngine.Proofs.Text.Digits
import ViewEngine.Text.Split

namespace ViewEngine.Text

section Cutting

variable {separator : Char} {characters : List Char}

theorem splitCharacters_eq (separator : Char) (characters : List Char) :
    splitCharacters separator characters = characters.splitOn separator := by
  induction characters with
  | nil => rfl
  | cons c rest ih =>
      rw [splitCharacters, ih, List.splitOn_cons_eq_if_modifyHead]
      by_cases same : c = separator
      · simp [same]
      · cases parts : rest.splitOn separator with
        | nil => exact absurd parts (List.splitOn_ne_nil _ _)
        | cons first others => simp [same]

theorem not_mem_of_mem_splitOn {part : List Char} (member : part ∈ characters.splitOn separator) :
    separator ∉ part := by
  induction characters generalizing part with
  | nil => simp_all
  | cons c rest ih =>
      rw [List.splitOn_cons_eq_if_modifyHead] at member
      split at member
      · rcases List.mem_cons.mp member with rfl | later
        · simp
        · exact ih later
      next different =>
        cases parts : rest.splitOn separator with
        | nil => exact absurd parts (List.splitOn_ne_nil _ _)
        | cons first others =>
            rw [parts, List.modifyHead_cons] at member
            rw [parts] at ih
            rcases List.mem_cons.mp member with rfl | later
            · rw [List.mem_cons, not_or]
              exact ⟨fun same => different (by simp [same]), ih (List.mem_cons_self ..)⟩
            · exact ih (List.mem_cons_of_mem _ later)

theorem not_mem_of_mem_split {part text : String} (member : part ∈ split separator text) :
    separator ∉ part.toList := by
  rw [split, splitCharacters_eq] at member
  obtain ⟨characters, inside, rfl⟩ := List.mem_map.mp member
  rw [String.toList_ofList]
  exact not_mem_of_mem_splitOn inside

theorem split_ne_nil (separator : Char) (text : String) : split separator text ≠ [] := by
  simp [split, splitCharacters_eq]

theorem intercalate_split (separator : Char) (text : String) :
    (String.singleton separator).intercalate (split separator text) = text := by
  rw [← String.toList_inj, String.toList_intercalate, split, splitCharacters_eq, List.map_map]
  simp [Function.comp_def]

theorem split_intercalate {parts : List String} (nonempty : parts ≠ [])
    (whole : ∀ part ∈ parts, separator ∉ part.toList) :
    split separator ((String.singleton separator).intercalate parts) = parts := by
  rw [split, splitCharacters_eq, String.toList_intercalate, String.toList_singleton,
    List.splitOn_intercalate, List.map_map]
  · simp [Function.comp_def]
  · simpa using whole
  · simpa using nonempty

theorem getLast?_intercalate {between last : List Char} (nonempty : last ≠ []) (init : List (List Char)) :
    (between.intercalate (init ++ [last])).getLast? = last.getLast? := by
  induction init with
  | nil => simp
  | cons first rest ih =>
      rw [List.cons_append, List.intercalate_cons_of_ne_nil (by simp), List.getLast?_append, ih]
      obtain ⟨c, found⟩ := Option.isSome_iff_exists.mp (List.getLast?_isSome.mpr nonempty)
      rw [found, Option.some_or]

end Cutting

section Joining

def PartsFrom (delimiter a b : String) : Prop :=
  ∀ rest other : String, a ++ delimiter ++ rest = b ++ delimiter ++ other → a = b

/-- Texts in the same place part from one another, except for the last ones, which nothing follows. -/
def PartFrom (delimiter : String) : List String → List String → Prop
  | a :: next :: as, b :: other :: bs => PartsFrom delimiter a b ∧ PartFrom delimiter (next :: as) (other :: bs)
  | _, _ => True

variable {delimiter a b : String}

theorem PartFrom.intercalate_injective {as bs : List String} (part : PartFrom delimiter as bs)
    (lengths : as.length = bs.length) (same : delimiter.intercalate as = delimiter.intercalate bs) : as = bs := by
  induction as generalizing bs with
  | nil => exact (List.length_eq_zero_iff.mp lengths.symm).symm
  | cons a as ih =>
      obtain ⟨b, bs, rfl⟩ := List.exists_cons_of_length_eq_add_one lengths.symm
      have fewer : as.length = bs.length := Nat.succ.inj lengths
      cases as with
      | nil =>
          obtain rfl := List.length_eq_zero_iff.mp fewer.symm
          rwa [String.intercalate_singleton, String.intercalate_singleton, ← List.singleton_inj] at same
      | cons next as =>
          obtain ⟨other, bs, rfl⟩ := List.exists_cons_of_length_eq_add_one fewer.symm
          rw [String.intercalate_cons_cons, String.intercalate_cons_cons] at same
          obtain rfl := part.1 _ _ same
          rw [ih part.2 fewer ((String.append_right_inj _).mp same)]

theorem partsFrom_of_first {first : Char} (begins : delimiter.toList.head? = some first) (filled : a.toList ≠ [])
    (within : first ∉ a.toList.tail) (filledOther : b.toList ≠ []) (withinOther : first ∉ b.toList.tail) :
    PartsFrom delimiter a b := by
  intro rest other same
  obtain ⟨more, isDelimiter⟩ := List.head?_eq_some_iff.mp begins
  have lists := congrArg String.toList same
  simp only [String.toList_append, isDelimiter, List.append_assoc, List.cons_append] at lists
  -- A longer text goes on with the delimiter of the shorter one, behind its own first character.
  have longer {short long : List Char} {rest other : List Char} (filled : short ≠ []) (within : first ∉ long.tail)
      (same : short ++ first :: rest = long ++ other) (less : short.length < long.length) : False := by
    obtain ⟨further, rfl⟩ : short <+: long :=
      List.prefix_of_prefix_length_le (List.prefix_append short _) (same ▸ List.prefix_append long _)
        (Nat.le_of_lt less)
    rw [List.append_assoc, List.append_cancel_left_eq] at same
    cases further with
    | nil => simp at less
    | cons c further =>
        obtain ⟨rfl, -⟩ := List.cons.inj same
        rw [List.tail_append_of_ne_nil filled] at within
        exact within (List.mem_append_right _ (List.mem_cons_self ..))
  rcases Nat.lt_trichotomy a.toList.length b.toList.length with less | equal | less
  · exact (longer filled withinOther lists less).elim
  · exact String.toList_inj.mp (List.append_inj_left lists equal)
  · exact (longer filledOther within lists.symm less).elim

theorem partFrom_of_forall {as bs : List String} (part : ∀ a ∈ as, ∀ b ∈ bs, PartsFrom delimiter a b) :
    PartFrom delimiter as bs := by
  induction as generalizing bs with
  | nil => trivial
  | cons a as ih =>
      cases as with
      | nil => trivial
      | cons next as =>
          cases bs with
          | nil => trivial
          | cons b bs =>
              cases bs with
              | nil => trivial
              | cons other bs =>
                  refine ⟨part a (List.mem_cons_self ..) b (List.mem_cons_self ..), ih fun a first b second => ?_⟩
                  exact part a (List.mem_cons_of_mem _ first) b (List.mem_cons_of_mem _ second)

theorem toString_natural_injective {m n : Nat} (same : toString m = toString n) : m = n := by
  have digits := congrArg String.toList same
  rw [toString_natural, toString_natural] at digits
  rw [← Number.ofDigits_toDigits m, digits, Number.ofDigits_toDigits]

theorem toString_integer (n : Int) : (toString n).toList ≠ [] ∧ '-' ∉ (toString n).toList.tail := by
  cases n with
  | ofNat n => exact ⟨toString_nonempty n, fun member => not_mem_digits rfl n (List.mem_of_mem_tail member)⟩
  | negSucc n =>
      rw [toString_negSucc]
      exact ⟨nofun, not_mem_digits rfl (n + 1)⟩

theorem toString_integer_injective {m n : Int} (same : toString m = toString n) : m = n := by
  have apart (m n : Nat) : toString (Int.ofNat m) ≠ toString (Int.negSucc n) := fun same => by
    have signed : '-' ∈ (toString (Int.ofNat m)).toList := by
      rw [same, toString_negSucc]
      exact List.mem_cons_self ..
    exact not_mem_digits rfl m signed
  cases m with
  | ofNat m =>
      cases n with
      | ofNat n => exact congrArg Int.ofNat (toString_natural_injective same)
      | negSucc n => exact absurd same (apart m n)
  | negSucc m =>
      cases n with
      | ofNat n => exact absurd same.symm (apart n m)
      | negSucc n =>
          have lists := congrArg String.toList same
          rw [toString_negSucc, toString_negSucc, List.cons.injEq] at lists
          exact congrArg Int.negSucc (Nat.succ.inj (toString_natural_injective (String.toList_inj.mp lists.2)))

theorem integers_part (m n : Int) : PartsFrom "-" (toString m) (toString n) :=
  partsFrom_of_first rfl (toString_integer m).1 (toString_integer m).2 (toString_integer n).1 (toString_integer n).2

end Joining

end ViewEngine.Text
