import Mathlib.Algebra.Ring.Int.Defs
import ViewEngine.Proofs.Text.Digits
import ViewEngine.Proofs.Text.Joined
import ViewEngine.Sql.Statement

/-!
The page that a statement asks for, as numbers behind the words OFFSET and LIMIT. Main statement: a number is written
as it is below 2 ^ 63, and from there on as a negative one, which is refused by postgres and no limit in sqlite.
-/

namespace ViewEngine

namespace Sql

/-- The numbers behind the words of a clause. -/
structure Paging where
  offset : Option Int := none
  limit : Option Int := none
deriving DecidableEq

namespace Paging

open Number (readInt64? readInt64?_toString)

def ofWords? : List String → Option Paging
  | [] => some {}
  | heading :: number :: rest => do
    let n ← readInt64? number
    let further ← ofWords? rest
    if heading = "OFFSET" then some { further with offset := some n.toInt }
    else if heading = "LIMIT" then some { further with limit := some n.toInt }
    else none
  | [_] => none

def read? (text : String) : Option Paging :=
  ofWords? ((Text.split ' ' text).filter (!·.isEmpty))

example : read? "LIMIT 5 OFFSET -7" = some ⟨some (-7), some 5⟩ := by
  decide +kernel

def signed (n : UInt64) : Int :=
  if n.toNat < 2 ^ 63 then n.toNat else n.toNat - 2 ^ 64

theorem toInt_toInt64 (n : UInt64) : n.toInt64.toInt = signed n := by
  have cases := n.toBitVec.toInt_eq_toNat_cond
  change n.toBitVec.toInt = signed n
  change n.toBitVec.toInt = if 2 * n.toNat < 2 ^ 64 then (n.toNat : Int) else (n.toNat : Int) - (2 ^ 64 : Nat) at cases
  unfold signed
  split <;> split at cases <;> omega

theorem signed_eq_iff (n : UInt64) : signed n = n.toNat ↔ n.toNat < 2 ^ 63 := by
  unfold signed
  split <;> omega

theorem signed_neg_iff (n : UInt64) : signed n < 0 ↔ 2 ^ 63 ≤ n.toNat := by
  have below := n.toNat_lt
  unfold signed
  split <;> omega

/-- The numbers that are written for a page. Where sqlite is asked for an offset alone it is given a limit too. -/
def written (dialect : Dialect) (offset limit : Option UInt64) : Paging where
  offset := offset.map signed
  limit := (limit.map signed).or (if dialect = .sqlite then offset.map fun _ => -1 else none)

def words : Dialect → Option UInt64 → Option UInt64 → List String
  | _, none, none => []
  | _, none, some limit => ["LIMIT", Dialect.countText limit]
  | .postgres, some offset, none => ["OFFSET", Dialect.countText offset]
  | .postgres, some offset, some limit => ["OFFSET", Dialect.countText offset, "LIMIT", Dialect.countText limit]
  | .sqlite, some offset, none => ["LIMIT", "-1", "OFFSET", Dialect.countText offset]
  | .sqlite, some offset, some limit => ["LIMIT", Dialect.countText limit, "OFFSET", Dialect.countText offset]

theorem intercalate_four (heading number other last : String) :
    (String.singleton ' ').intercalate [heading, number, other, last] =
      heading ++ " " ++ number ++ (" " ++ other ++ " ") ++ last := by
  simp only [← String.append_assoc]
  rfl

theorem pagination_eq (dialect : Dialect) (offset limit : Option UInt64) :
    dialect.pagination offset limit = (String.singleton ' ').intercalate (words dialect offset limit) := by
  cases offset with
  | none => cases dialect <;> cases limit <;> rfl
  | some offset =>
      cases limit with
      | none => cases dialect <;> rfl
      | some limit =>
          cases dialect with
          | postgres => exact (intercalate_four "OFFSET" (Dialect.countText offset) "LIMIT" (Dialect.countText limit)).symm
          | sqlite => exact (intercalate_four "LIMIT" (Dialect.countText limit) "OFFSET" (Dialect.countText offset)).symm

def IsWord (word : String) : Prop :=
  word ≠ "" ∧ ' ' ∉ word.toList

instance (word : String) : Decidable (IsWord word) :=
  inferInstanceAs (Decidable (_ ∧ _))

theorem countText_isWord (n : UInt64) : IsWord (Dialect.countText n) := by
  refine ⟨fun empty => ?_, not_mem_toString rfl (by decide) _⟩
  have read := readInt64?_toString n.toInt64
  rw [← Dialect.countText, empty] at read
  contradiction

theorem words_areWords (dialect : Dialect) (offset limit : Option UInt64) :
    ∀ word ∈ words dialect offset limit, IsWord word := by
  have isOffset : IsWord "OFFSET" := by decide
  have isLimit : IsWord "LIMIT" := by decide
  have isUnlimited : IsWord "-1" := by decide
  have isCount := countText_isWord
  cases dialect <;> cases offset <;> cases limit <;> simp [words, *]

theorem read?_intercalate {parts : List String} (whole : ∀ part ∈ parts, IsWord part) :
    read? ((String.singleton ' ').intercalate parts) = ofWords? parts := by
  cases parts with
  | nil => rfl
  | cons first rest =>
      rw [read?, Text.split_intercalate (List.cons_ne_nil first rest) fun part member => (whole part member).2,
        List.filter_eq_self.mpr]
      intro part member
      simpa [String.isEmpty_iff] using (whole part member).1

theorem read?_pagination (dialect : Dialect) (offset limit : Option UInt64) :
    read? (dialect.pagination offset limit) = some (written dialect offset limit) := by
  have number (n : UInt64) : readInt64? (Dialect.countText n) = some n.toInt64 := readInt64?_toString _
  have unlimited : readInt64? "-1" = some (-1) := by decide +kernel
  rw [pagination_eq, read?_intercalate (words_areWords dialect offset limit)]
  cases dialect <;> cases offset <;> cases limit <;>
    simp [words, ofWords?, written, number, unlimited, toInt_toInt64]

section Rows

variable {α : Type} {p : Paging} {rows : List α}

def limited (limit : Option Int) (rows : List α) : List α :=
  match limit with
  | none => rows
  | some n => if n < 0 then rows else rows.take n.toNat

def numbers (p : Paging) : List Int :=
  p.offset.toList ++ p.limit.toList

/-- The rows that a database returns. Postgres refuses negative numbers; sqlite skips no rows for one. -/
def select? (dialect : Dialect) (p : Paging) (rows : List α) : Option (List α) :=
  if dialect = .postgres ∧ ∃ n ∈ p.numbers, n < 0 then none
  else some (limited p.limit (rows.drop (p.offset.elim 0 Int.toNat)))

def requested (offset limit : Option UInt64) (rows : List α) : List α :=
  let rest := rows.drop (offset.elim 0 UInt64.toNat)
  limit.elim rest fun n => rest.take n.toNat

def isSmall (n : UInt64) : Bool :=
  n.toNat < 2 ^ 63

theorem filter_isSmall (n : UInt64) : (some n).filter isSmall = if n.toNat < 2 ^ 63 then some n else none := by
  simp only [Option.filter_some, isSmall, decide_eq_true_eq]

theorem limited_signed (limit : Option UInt64) :
    limited (limit.map signed) rows = (limit.filter isSmall).elim rows fun n => rows.take n.toNat := by
  cases limit with
  | none => rfl
  | some n =>
      rw [filter_isSmall, Option.map_some, limited]
      split
      next negative => rw [if_neg (Nat.not_lt.mpr ((signed_neg_iff n).mp negative)), Option.elim_none]
      next natural =>
        have small : n.toNat < 2 ^ 63 := Nat.lt_of_not_le (mt (signed_neg_iff n).mpr natural)
        rw [if_pos small, Option.elim_some, (signed_eq_iff n).mpr small, Int.toNat_natCast]

theorem skipped_signed (offset : Option UInt64) :
    (offset.map signed).elim 0 Int.toNat = (offset.filter isSmall).elim 0 UInt64.toNat := by
  cases offset with
  | none => rfl
  | some n =>
      rw [filter_isSmall, Option.map_some, Option.elim_some]
      split
      next small => rw [Option.elim_some, (signed_eq_iff n).mpr small, Int.toNat_natCast]
      next large =>
        have negative := (signed_neg_iff n).mpr (Nat.le_of_not_lt large)
        rw [Option.elim_none, Int.toNat_of_nonpos (Int.le_of_lt negative)]

theorem exists_negative (offset limit : Option UInt64) : (∃ m ∈ (written .postgres offset limit).numbers, m < 0) ↔
    ∃ n ∈ offset.toList ++ limit.toList, 2 ^ 63 ≤ n.toNat := by
  have mapped : (written .postgres offset limit).numbers = (offset.toList ++ limit.toList).map signed := by
    cases offset <;> cases limit <;> rfl
  rw [mapped]
  constructor
  · rintro ⟨m, member, negative⟩
    obtain ⟨n, inside, rfl⟩ := List.mem_map.mp member
    exact ⟨n, inside, (signed_neg_iff n).mp negative⟩
  · rintro ⟨n, inside, large⟩
    exact ⟨_, List.mem_map_of_mem inside, (signed_neg_iff n).mpr large⟩

theorem limited_written (dialect : Dialect) (offset limit : Option UInt64) :
    limited (written dialect offset limit).limit rows = limited (limit.map signed) rows := by
  cases limit with
  | some n => rfl
  | none => cases dialect <;> cases offset <;> rfl

theorem select?_postgres (offset limit : Option UInt64) :
    (written .postgres offset limit).select? .postgres rows =
      if ∃ n ∈ offset.toList ++ limit.toList, 2 ^ 63 ≤ n.toNat then none
      else some (requested (offset.filter isSmall) (limit.filter isSmall) rows) := by
  simp only [select?, true_and, exists_negative, limited_written, limited_signed]
  rw [written, skipped_signed]
  rfl

theorem select?_sqlite (offset limit : Option UInt64) : (written .sqlite offset limit).select? .sqlite rows =
    some (requested (offset.filter isSmall) (limit.filter isSmall) rows) := by
  simp only [select?, reduceCtorEq, false_and, if_false, limited_written, limited_signed]
  rw [written, skipped_signed]
  rfl

theorem select?_small {dialect : Dialect} {offset limit : Option UInt64}
    (small : ∀ n ∈ offset.toList ++ limit.toList, n.toNat < 2 ^ 63) :
    (written dialect offset limit).select? dialect rows = some (requested offset limit rows) := by
  have kept (given : Option UInt64) (known : ∀ n ∈ given, n ∈ offset.toList ++ limit.toList) :
      given.filter isSmall = given := by
    cases given with
    | none => rfl
    | some n => rw [filter_isSmall, if_pos (small n (known n rfl))]
  have keptOffset := kept offset fun n isGiven => List.mem_append_left _ (Option.mem_toList.mpr isGiven)
  have keptLimit := kept limit fun n isGiven => List.mem_append_right _ (Option.mem_toList.mpr isGiven)
  cases dialect with
  | sqlite => rw [select?_sqlite, keptOffset, keptLimit]
  | postgres =>
      have none : ¬∃ n ∈ offset.toList ++ limit.toList, 2 ^ 63 ≤ n.toNat := by
        rintro ⟨n, member, large⟩
        exact Nat.not_lt.mpr large (small n member)
      rw [select?_postgres, if_neg none, keptOffset, keptLimit]

end Rows

end Paging

namespace Statement

def pageNumbers (s : Statement) : List UInt64 :=
  s.offset.toList ++ s.limit.toList

def unpaged (s : Statement) : Statement :=
  { s with offset := none, limit := none }

variable {s : Statement}

theorem selectTokens_paged (s : Statement) : s.selectTokens = s.unpaged.selectTokens ++ s.paginationTokens := by
  have bare : s.unpaged.paginationTokens = [] := rfl
  rw [selectTokens, selectTokens, bare, List.append_nil]
  rfl

theorem text_paged (select : s.kind = .select) (dialect : Dialect) : s.text dialect = s.unpaged.text dialect ++
    if s.pageNumbers = [] then "" else "\n" ++ dialect.pagination s.offset s.limit := by
  have unpaged : s.unpaged.tokens = s.unpaged.selectTokens := by
    rw [tokens]
    simp only [Statement.unpaged, select]
  have whole : s.tokens = s.selectTokens := by
    rw [tokens]
    simp only [select]
  rw [text, text, whole, unpaged, selectTokens_paged, textOf_append]
  congr 1
  unfold paginationTokens pageNumbers
  cases s.offset <;> cases s.limit <;> simp [textOf, Token.text]

/-- The clause of a page is read as numbers, each as it was given below 2 ^ 63 and negative from there on. A page whose
numbers are all below has its rows, and no limit where none is given; other numbers are refused by postgres, and are in
sqlite as if they had not been given. -/
theorem pages_are_signed (select : s.kind = .select) (dialect : Dialect) : ∃ p : Paging,
    (s.text dialect = s.unpaged.text dialect ++
      if s.pageNumbers = [] then "" else "\n" ++ dialect.pagination s.offset s.limit) ∧
    Paging.read? (dialect.pagination s.offset s.limit) = some p ∧
    (∀ n, s.offset = some n →
      (p.offset = some (n.toNat : Int) ↔ n.toNat < 2 ^ 63) ∧ ((∃ m < 0, p.offset = some m) ↔ 2 ^ 63 ≤ n.toNat)) ∧
    (∀ n, s.limit = some n →
      (p.limit = some (n.toNat : Int) ↔ n.toNat < 2 ^ 63) ∧ ((∃ m < 0, p.limit = some m) ↔ 2 ^ 63 ≤ n.toNat)) ∧
    (s.offset = none → p.offset = none) ∧
    (s.limit = none → p.limit = if dialect = .sqlite ∧ s.offset.isSome then some (-1) else none) ∧
    ∀ (α : Type) (rows : List α),
      (s.limit = none → Paging.limited p.limit rows = rows) ∧
      ((∀ n ∈ s.pageNumbers, n.toNat < 2 ^ 63) →
        p.select? dialect rows = some (Paging.requested s.offset s.limit rows)) ∧
      ((∃ n ∈ s.pageNumbers, 2 ^ 63 ≤ n.toNat) → p.select? dialect rows =
        match dialect with
        | .postgres => none
        | .sqlite =>
          some (Paging.requested (s.offset.filter Paging.isSmall) (s.limit.filter Paging.isSmall) rows)) := by
  have exact (n : UInt64) : (some (Paging.signed n) = some (n.toNat : Int) ↔ n.toNat < 2 ^ 63) ∧
      ((∃ m < 0, some (Paging.signed n) = some m) ↔ 2 ^ 63 ≤ n.toNat) := by
    simp only [Option.some.injEq, Paging.signed_eq_iff, exists_eq_right', Paging.signed_neg_iff, and_self]
  refine ⟨.written dialect s.offset s.limit, text_paged select dialect, Paging.read?_pagination .., fun n given => ?_,
    fun n given => ?_, fun none => ?_, fun none => ?_, fun α rows =>
      ⟨fun none => ?_, Paging.select?_small, fun large => ?_⟩⟩
  · rw [Paging.written, given]
    exact exact n
  · rw [Paging.written, given]
    exact exact n
  · rw [Paging.written, none]
    rfl
  · rw [Paging.written, none]
    cases dialect <;> cases s.offset <;> rfl
  · rw [Paging.limited_written, none]
    rfl
  · cases dialect with
    | postgres => exact Paging.select?_postgres _ _ |>.trans (if_pos large)
    | sqlite => exact Paging.select?_sqlite _ _

def farPage : Statement :=
  { Statement.select with offset := some 3, limit := some 18446744073709551615 }

/-- The largest limit is written like the limit that stands for none. -/
theorem farPage_is_unlimited : farPage.kind = .select ∧
    farPage.text .sqlite = farPage.unpaged.text .sqlite ++ "\nLIMIT -1 OFFSET 3" ∧
    ∃ p, Paging.read? "LIMIT -1 OFFSET 3" = some p ∧ p.limit ≠ some 18446744073709551615 ∧
      ∀ rows : List Nat, p.select? .sqlite rows = some (rows.drop 3) := by
  have select : farPage.kind = .select := rfl
  obtain ⟨p, text, read, -, limit, -, -, rows⟩ := pages_are_signed select .sqlite
  have written : Dialect.sqlite.pagination farPage.offset farPage.limit = "LIMIT -1 OFFSET 3" := by decide +kernel
  rw [written] at text read
  have wraps := (limit _ rfl).1
  refine ⟨select, text, p, read, fun same => ?_, fun given => ?_⟩
  · have small : (18446744073709551615 : UInt64).toNat < 2 ^ 63 := wraps.mp same
    exact absurd small (by decide)
  · exact (rows Nat given).2.2 ⟨18446744073709551615, by decide, by decide⟩

end Statement

end Sql

end ViewEngine
