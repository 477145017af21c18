import Mathlib.Data.List.Infix
import ViewEngine.Proofs.Conditions.Meaning

/-!
Operands that are patterns. A text whose beginning or ending is asked for is written into a pattern as it is, so `%` and
`_` in it stand for other characters. Main statement: what is found is what has a beginning (an ending) that the text
stands for as a pattern; this is the text itself, and nothing else exactly if it has neither of the two in it.
-/

namespace ViewEngine

/-- What a character of a pattern stands for: `%` for any characters, `_` for any one, others for themselves. -/
def StandsFor (c : Char) (part : List Char) : Prop :=
  if c = '%' then True else if c = '_' then ∃ other, part = [other] else part = [c]

/-- The texts that a pattern stands for, part by part. -/
inductive IsLike : List Char → List Char → Prop
  | nil : IsLike [] []
  | cons {c : Char} {part pattern subject : List Char} (stands : StandsFor c part) (rest : IsLike pattern subject) :
      IsLike (c :: pattern) (part ++ subject)

section Characters

variable {c : Char} {part : List Char}

theorem standsFor_run : StandsFor '%' part ↔ True :=
  Iff.rfl

theorem standsFor_one : StandsFor '_' part ↔ ∃ other, part = [other] :=
  Iff.rfl

theorem standsFor_plain (plain : c ≠ '%' ∧ c ≠ '_') : StandsFor c part ↔ part = [c] := by
  rw [StandsFor, if_neg plain.1, if_neg plain.2]

theorem run_or_one_or_plain (c : Char) : c = '%' ∨ c = '_' ∨ c ≠ '%' ∧ c ≠ '_' := by
  by_cases isRun : c = '%'
  · exact .inl isRun
  by_cases isOne : c = '_'
  · exact .inr (.inl isOne)
  · exact .inr (.inr ⟨isRun, isOne⟩)

theorem standsFor_self (c : Char) : StandsFor c [c] := by
  rcases run_or_one_or_plain c with rfl | rfl | plain
  · trivial
  · exact ⟨'_', rfl⟩
  · exact (standsFor_plain plain).mpr rfl

end Characters

namespace IsLike

variable {c : Char} {pattern subject before after : List Char}

theorem nil_iff : IsLike [] subject ↔ subject = [] := by
  constructor
  · intro isLike
    cases isLike
    rfl
  · intro empty
    exact empty ▸ .nil

theorem cons_iff : IsLike (c :: pattern) subject ↔
    ∃ part rest, subject = part ++ rest ∧ StandsFor c part ∧ IsLike pattern rest := by
  constructor
  · intro isLike
    cases isLike with
    | cons stands rest => exact ⟨_, _, rfl, stands, rest⟩
  · intro ⟨part, rest, split, stands, isLike⟩
    exact split ▸ .cons stands isLike

theorem refl (text : List Char) : IsLike text text := by
  induction text with
  | nil => exact .nil
  | cons c rest ih => exact .cons (standsFor_self c) ih

theorem append_iff : IsLike (before ++ after) subject ↔
    ∃ first second, subject = first ++ second ∧ IsLike before first ∧ IsLike after second := by
  induction before generalizing subject with
  | nil => simp [nil_iff]
  | cons c before ih =>
      simp only [List.cons_append, cons_iff, ih]
      constructor
      · intro ⟨part, _, split, stands, first, second, whole, isFirst, isSecond⟩
        refine ⟨part ++ first, second, ?_, ⟨part, first, rfl, stands, isFirst⟩, isSecond⟩
        rw [split, whole, List.append_assoc]
      · intro ⟨_, second, split, ⟨part, first, whole, stands, isFirst⟩, isSecond⟩
        refine ⟨part, first ++ second, ?_, stands, first, second, rfl, isFirst, isSecond⟩
        rw [split, whole, List.append_assoc]

end IsLike

theorem likePattern_iff {pattern subject : List Char} :
    likePattern pattern subject = true ↔ IsLike pattern subject := by
  induction pattern generalizing subject with
  | nil => rw [likePattern, List.isEmpty_iff, IsLike.nil_iff]
  | cons c pattern ih =>
      rw [IsLike.cons_iff]
      rcases run_or_one_or_plain c with rfl | rfl | plain
      · simp only [likePattern, List.any_eq_true, List.mem_tails, ih, standsFor_run, true_and]
        constructor
        · intro ⟨rest, ⟨part, split⟩, isLike⟩
          exact ⟨part, rest, split.symm, isLike⟩
        · intro ⟨part, rest, split, isLike⟩
          exact ⟨rest, ⟨part, split.symm⟩, isLike⟩
      · simp only [standsFor_one]
        cases subject with
        | nil => simp [likePattern]
        | cons first rest =>
            rw [likePattern, ih]
            constructor
            · intro isLike
              exact ⟨[first], rest, rfl, ⟨first, rfl⟩, isLike⟩
            · intro ⟨part, others, split, ⟨other, single⟩, isLike⟩
              cases single
              cases split
              exact isLike
      · simp only [standsFor_plain plain]
        cases subject with
        | nil => simp [likePattern, plain]
        | cons first rest =>
            have unfolded : likePattern (c :: pattern) (first :: rest) = (c == first && likePattern pattern rest) := by
              rw [likePattern] <;> simp [plain]
            rw [unfolded, Bool.and_eq_true, beq_iff_eq, ih]
            constructor
            · intro ⟨same, isLike⟩
              exact ⟨[c], rest, same ▸ rfl, rfl, isLike⟩
            · intro ⟨part, others, split, single, isLike⟩
              cases single
              cases split
              exact ⟨rfl, isLike⟩

namespace IsLike

variable {c : Char} {pattern subject : List Char}

theorem begins_iff : IsLike (pattern ++ ['%']) subject ↔ ∃ part, part <+: subject ∧ IsLike pattern part := by
  rw [append_iff]
  constructor
  · intro ⟨first, second, split, isFirst, _⟩
    exact ⟨first, ⟨second, split.symm⟩, isFirst⟩
  · intro ⟨first, ⟨second, split⟩, isFirst⟩
    have rest : IsLike ['%'] (second ++ []) := .cons trivial .nil
    exact ⟨first, second, split.symm, isFirst, List.append_nil second ▸ rest⟩

theorem ends_iff : IsLike ('%' :: pattern) subject ↔ ∃ part, part <:+ subject ∧ IsLike pattern part := by
  rw [cons_iff]
  constructor
  · intro ⟨skipped, part, split, _, isLike⟩
    exact ⟨part, ⟨skipped, split.symm⟩, isLike⟩
  · intro ⟨part, ⟨skipped, split⟩, isLike⟩
    exact ⟨skipped, part, split.symm, trivial, isLike⟩

/-- Nothing in a text stands for other characters. -/
def IsPlain (text : List Char) : Prop :=
  '%' ∉ text ∧ '_' ∉ text

instance (text : List Char) : Decidable (IsPlain text) :=
  inferInstanceAs (Decidable (_ ∧ _))

theorem isPlain_cons : IsPlain (c :: pattern) ↔ (c ≠ '%' ∧ c ≠ '_') ∧ IsPlain pattern := by
  simp only [IsPlain, List.mem_cons, not_or, eq_comm]
  exact and_and_and_comm

theorem eq_of_plain (plain : IsPlain pattern) (isLike : IsLike pattern subject) : subject = pattern := by
  induction isLike with
  | nil => rfl
  | cons stands _ ih =>
      obtain ⟨own, others⟩ := isPlain_cons.mp plain
      rw [ih others, (standsFor_plain own).mp stands]
      rfl

def fill (c : Char) : List Char :=
  if c = '%' then [] else if c = '_' then ['a'] else [c]

def filled (pattern : List Char) : List Char :=
  pattern.flatMap fill

theorem filled_isLike (pattern : List Char) : IsLike pattern (filled pattern) := by
  have stands (c : Char) : StandsFor c (fill c) := by
    rcases run_or_one_or_plain c with rfl | rfl | plain
    · trivial
    · exact ⟨'a', rfl⟩
    · rw [fill, if_neg plain.1, if_neg plain.2]
      exact standsFor_self c
  induction pattern with
  | nil => exact .nil
  | cons c rest ih => exact .cons (stands c) ih

theorem filled_isPlain (pattern : List Char) : IsPlain (filled pattern) := by
  have fill_isPlain (c : Char) : IsPlain (fill c) := by
    rcases run_or_one_or_plain c with rfl | rfl | plain
    · decide
    · decide
    · rw [fill, if_neg plain.1, if_neg plain.2]
      exact isPlain_cons.mpr ⟨plain, List.not_mem_nil, List.not_mem_nil⟩
  constructor
  · intro member
    obtain ⟨c, _, inside⟩ := List.mem_flatMap.mp member
    exact (fill_isPlain c).1 inside
  · intro member
    obtain ⟨c, _, inside⟩ := List.mem_flatMap.mp member
    exact (fill_isPlain c).2 inside

theorem length_filled_le (pattern : List Char) : (filled pattern).length ≤ pattern.length := by
  have short (c : Char) : (fill c).length ≤ 1 := by
    unfold fill
    split
    · exact Nat.zero_le 1
    · split <;> exact Nat.le_refl 1
  induction pattern with
  | nil => exact Nat.le_refl 0
  | cons c rest ih =>
      have unfolded : (filled (c :: rest)).length = (fill c).length + (filled rest).length := List.length_append
      have own := short c
      rw [unfolded, List.length_cons]
      omega

theorem begins_exactly_iff :
    (∀ subject, IsLike (pattern ++ ['%']) subject ↔ pattern <+: subject) ↔ IsPlain pattern := by
  simp only [begins_iff]
  constructor
  · intro always
    -- The filled operand is plain and no longer than the operand, so it begins with this only if it is the same.
    have begins := (always (filled pattern)).mp ⟨_, List.prefix_rfl, filled_isLike pattern⟩
    rw [begins.eq_of_length_le (length_filled_le pattern)]
    exact filled_isPlain pattern
  · intro plain subject
    constructor
    · rintro ⟨part, begins, isLike⟩
      exact isLike.eq_of_plain plain ▸ begins
    · exact fun begins => ⟨pattern, begins, refl pattern⟩

theorem ends_exactly_iff : (∀ subject, IsLike ('%' :: pattern) subject ↔ pattern <:+ subject) ↔ IsPlain pattern := by
  simp only [ends_iff]
  constructor
  · intro always
    have ends := (always (filled pattern)).mp ⟨_, List.suffix_rfl, filled_isLike pattern⟩
    rw [ends.eq_of_length_le (length_filled_le pattern)]
    exact filled_isPlain pattern
  · intro plain subject
    constructor
    · rintro ⟨part, ends, isLike⟩
      exact isLike.eq_of_plain plain ▸ ends
    · exact fun ends => ⟨pattern, ends, refl pattern⟩

end IsLike

open Sql

def Sql.Expr.Finds (expr : Expr) (table : Nat) (column : String) (pattern : List Char) : Prop :=
  ∀ (frame : Frame) (subject : String), frame.rows table column = .text subject →
    (expr.holds .standard frame = true ↔ IsLike pattern subject.toList)

theorem Predicate.read_finds (p : Predicate) (type : ColumnType) (table : Nat) (column pattern : String)
    (meant : ∀ c v, p.truth type c v = c.like v (.text pattern)) :
    ∃ found, read? (p.expr type (.columnOf table column)).tokens = some found ∧
      found.Finds table column pattern.toList := by
  obtain ⟨bracketed, truth⟩ := p.expr_means type table column
  obtain ⟨found, isFound, alike⟩ := read?_eq_some bracketed rfl
  refine ⟨found, isFound, fun frame subject holds => ?_⟩
  rw [Expr.holds, alike, truth, meant, holds, ← likePattern_iff]
  exact beq_iff_eq.trans Option.some_inj

namespace Sql.Expr.Finds

variable {expr : Expr} {table : Nat} {column : String} {pattern : List Char} {found : List Char → Prop}

theorem forall_iff (finds : expr.Finds table column pattern) :
    (∀ (frame : Frame) (subject : String), frame.rows table column = .text subject →
      (expr.holds .standard frame = true ↔ found subject.toList)) ↔
      ∀ subject, IsLike pattern subject ↔ found subject := by
  constructor
  · intro always subject
    have here := always { rows := fun _ _ => .text (String.ofList subject) } (String.ofList subject) rfl
    rw [finds _ _ rfl, String.toList_ofList] at here
    exact here
  · intro always frame subject holds
    exact (finds frame subject holds).trans (always subject.toList)

end Sql.Expr.Finds

/-- What is found by its beginning (its ending) has one that the operand stands for as a pattern, such as the operand
itself; and it is what begins (ends) with the operand exactly if nothing in this stands for other characters. -/
theorem operands_are_patterns (s : String) (type : ColumnType) (table : Nat) (column : String) :
    ∃ starts ends beginning ending,
      Predicate.of .startsWith (.text s) = .ok starts ∧
      read? (starts.expr type (.columnOf table column)).tokens = some beginning ∧
      Predicate.of .endsWith (.text s) = .ok ends ∧
      read? (ends.expr type (.columnOf table column)).tokens = some ending ∧
      (∀ (frame : Frame) (c : String), frame.rows table column = .text c →
        (beginning.holds .standard frame = true ↔ ∃ part, part <+: c.toList ∧ IsLike s.toList part) ∧
        (ending.holds .standard frame = true ↔ ∃ part, part <:+ c.toList ∧ IsLike s.toList part) ∧
        (s.toList <+: c.toList → beginning.holds .standard frame = true) ∧
        (s.toList <:+ c.toList → ending.holds .standard frame = true)) ∧
      ((∀ (frame : Frame) (c : String), frame.rows table column = .text c →
        (beginning.holds .standard frame = true ↔ s.toList <+: c.toList)) ↔ IsLike.IsPlain s.toList) ∧
      ((∀ (frame : Frame) (c : String), frame.rows table column = .text c →
        (ending.holds .standard frame = true ↔ s.toList <:+ c.toList)) ↔ IsLike.IsPlain s.toList) := by
  obtain ⟨beginning, isBeginning, begins⟩ :=
    Predicate.read_finds ⟨.startsWith, .text s, none⟩ type table column (s ++ "%") fun _ _ => rfl
  obtain ⟨ending, isEnding, ends⟩ :=
    Predicate.read_finds ⟨.endsWith, .text s, none⟩ type table column ("%" ++ s) fun _ _ => rfl
  rw [String.toList_append] at begins ends
  have begins_iff (frame : Frame) (c : String) (holds : frame.rows table column = .text c) :
      beginning.holds .standard frame = true ↔ ∃ part, part <+: c.toList ∧ IsLike s.toList part :=
    (begins frame c holds).trans IsLike.begins_iff
  have ends_iff (frame : Frame) (c : String) (holds : frame.rows table column = .text c) :
      ending.holds .standard frame = true ↔ ∃ part, part <:+ c.toList ∧ IsLike s.toList part :=
    (ends frame c holds).trans IsLike.ends_iff
  refine ⟨_, _, beginning, ending, rfl, isBeginning, rfl, isEnding, fun frame c holds => ?_, ?_, ?_⟩
  · refine ⟨begins_iff frame c holds, ends_iff frame c holds, fun isPrefix => ?_, fun isSuffix => ?_⟩
    · exact (begins_iff frame c holds).mpr ⟨_, isPrefix, IsLike.refl _⟩
    · exact (ends_iff frame c holds).mpr ⟨_, isSuffix, IsLike.refl _⟩
  · exact begins.forall_iff.trans IsLike.begins_exactly_iff
  · exact ends.forall_iff.trans IsLike.ends_exactly_iff

/-- What is asked to begin with `50%` is found where it begins with `50`. -/
theorem percent_finds_others : ∃ p found,
    Predicate.of .startsWith (.text "50%") = .ok p ∧
      read? (p.expr .varchar (.columnOf 1 "value")).tokens = some found ∧
      found.holds .standard { rows := fun _ _ => .text "500" } = true ∧ ¬"50%".toList <+: "500".toList := by
  obtain ⟨found, isFound, finds⟩ := Predicate.read_finds ⟨.startsWith, .text "50%", none⟩ .varchar 1 "value" "50%%"
    fun _ _ => rfl
  have isLike : IsLike "50%%".toList "500".toList := likePattern_iff.mp (by decide)
  exact ⟨_, found, rfl, isFound, (finds _ "500" rfl).mpr isLike, by decide⟩

end ViewEngine
