import Mathlib.Data.List.Lex
import Mathlib.Data.List.TakeWhile
import Mathlib.Order.Lattice
import ViewEngine.Proofs.Text.Digits
import ViewEngine.Timestamp.Basic
import ViewEngine.Timestamp.Reading

namespace ViewEngine.Timestamp

theorem fields_injective : Function.Injective Timestamp.fields := by
  intro first second same
  cases first
  cases second
  simp only [fields, List.cons.injEq, Int.natCast_inj, and_true] at same
  simp only [Timestamp.mk.injEq]
  exact same

instance : LinearOrder Timestamp where
  le a b := a.fields ≤ b.fields
  lt a b := a.fields < b.fields
  le_refl a := le_refl a.fields
  le_trans a b c := le_trans (a := a.fields) (b := b.fields) (c := c.fields)
  lt_iff_le_not_ge a b := lt_iff_le_not_ge (a := a.fields) (b := b.fields)
  le_antisymm _ _ lower upper := fields_injective (le_antisymm lower upper)
  le_total a b := le_total a.fields b.fields
  toDecidableLE a b := inferInstanceAs (Decidable (a.fields ≤ b.fields))
  toDecidableLT a b := inferInstanceAs (Decidable (a < b))

section Truncated

variable {a b : Timestamp}

theorem lt_truncated_iff : a < b.truncated ↔ a.truncated < b.truncated := by
  change a.fields < b.truncated.fields ↔ a.truncated.fields < b.truncated.fields
  simp only [fields, truncated, List.cons_lt_cons_iff, lt_self_iff_false, and_false, or_false]
  omega

theorem truncated_le : a.truncated ≤ a :=
  not_lt.mp fun later => (lt_truncated_iff.mp later).false

theorem truncated_mono (ordered : a ≤ b) : a.truncated ≤ b.truncated :=
  not_lt.mp fun later => ((lt_truncated_iff.mpr later).trans_le truncated_le).not_ge ordered

end Truncated

open Text (digits? trimStart trimEnd isBlank character? fraction?)

variable {rest : List Char}

theorem number?_paddedDigits {n : Nat} (small : n < 100) :
    number? 2 (paddedDigits 2 n ++ rest) = some (n, rest) := by
  rw [number?, Text.trimStart_digits paddedDigits_isDigit paddedDigits_nonempty,
    digits?_paddedDigits (by decide) small]

def yearCharacters (year : Int) : List Char :=
  if 0 ≤ year ∧ year ≤ 9999 then paddedDigits 4 year.toNat
  else (if year < 0 then '-' else '+') :: paddedDigits 4 year.natAbs

theorem yearText_toList (year : Int) : (yearText year).toList = yearCharacters year := by
  unfold yearText yearCharacters
  split
  · exact padded_toList 4 year.toNat
  · split <;> rw [String.toList_append, padded_toList] <;> rfl

theorem digits?_signedYear (magnitude : Nat) :
    digits? (paddedDigits 4 magnitude ++ '-' :: rest).length (paddedDigits 4 magnitude ++ '-' :: rest) =
      some (magnitude, '-' :: rest) := by
  rw [Text.digits?_append paddedDigits_isDigit paddedDigits_nonempty (by simp) (.inr (by simp)),
    ofDigits_paddedDigits]

theorem year?_yearCharacters (year : Int) :
    year? (yearCharacters year ++ '-' :: rest) = some (year, '-' :: rest) := by
  unfold yearCharacters
  split
  next short =>
    obtain ⟨magnitude, rfl⟩ := Int.eq_ofNat_of_zero_le short.1
    have small : magnitude < 10 ^ 4 := by omega
    have read := digits?_paddedDigits (by decide) small ('-' :: rest)
    have visible := Text.trimStart_digits (@paddedDigits_isDigit 4 magnitude) paddedDigits_nonempty
      ('-' :: rest)
    cases first : paddedDigits 4 magnitude with
    | nil => exact absurd first paddedDigits_nonempty
    | cons c digits =>
        have digit : c.isDigit = true := paddedDigits_isDigit c (by rw [first]; exact List.mem_cons_self ..)
        have noMinus : c ≠ '-' := by rintro rfl; contradiction
        have noPlus : c ≠ '+' := by rintro rfl; contradiction
        rw [first, List.cons_append] at visible read
        simp only [Int.toNat_natCast, first, List.cons_append, year?, visible]
        split
        next same => exact absurd (List.cons.inj same).1 noMinus
        next same => exact absurd (List.cons.inj same).1 noPlus
        next => rw [read, Option.map_some]
  next long =>
    split
    next negative =>
      simp only [List.cons_append, year?, Text.trimStart_cons (c := '-') rfl, digits?_signedYear,
        Option.map_some, Option.some.injEq, Prod.mk.injEq, and_true]
      omega
    next positive =>
      simp only [List.cons_append, year?, Text.trimStart_cons (c := '+') rfl, digits?_signedYear,
        Option.map_some, Option.some.injEq, Prod.mk.injEq, and_true]
      omega

def dateCharacters (t : Timestamp) : List Char :=
  yearCharacters t.year ++ '-' :: (paddedDigits 2 t.month ++ '-' :: paddedDigits 2 t.day)

theorem date?_dateCharacters (t : Timestamp) :
    date? (dateCharacters t ++ rest) = some ((t.year, t.month, t.day), rest) := by
  obtain ⟨-, -, -, monthBound, -, dayBound⟩ := t.validDate
  have monthSmall : t.month < 100 := by omega
  have daySmall : t.day < 100 := by
    have month : daysInMonth t.year t.month ≤ 31 := by
      unfold daysInMonth
      split
      · split <;> decide
      · split <;> decide
    omega
  simp only [date?, dateCharacters, List.append_assoc, List.cons_append, year?_yearCharacters,
    Option.bind_eq_bind, Option.bind_some, character?, if_true, number?_paddedDigits monthSmall,
    number?_paddedDigits daySmall]

def fractionCharacters (nanosecond : Nat) : List Char :=
  if nanosecond = 0 then []
  else if nanosecond % 1000000 = 0 then '.' :: paddedDigits 3 (nanosecond / 1000000)
  else if nanosecond % 1000 = 0 then '.' :: paddedDigits 6 (nanosecond / 1000)
  else '.' :: paddedDigits 9 nanosecond

theorem fractionText_toList (nanosecond : Nat) :
    (fractionText nanosecond).toList = fractionCharacters nanosecond := by
  unfold fractionText fractionCharacters
  split
  · rfl
  · split
    · rw [String.toList_append, padded_toList]; rfl
    · split <;> rw [String.toList_append, padded_toList] <;> rfl

theorem fraction?_paddedDigits {width n : Nat} (positive : 0 < width) (short : width ≤ 9)
    (small : n < 10 ^ width) :
    fraction? ('.' :: paddedDigits width n) = some (n * 10 ^ (9 - width), []) := by
  have full := paddedDigits_length positive small
  have taken : (paddedDigits width n).takeWhile Char.isDigit = paddedDigits width n :=
    List.takeWhile_eq_self_iff.mpr paddedDigits_isDigit
  have dropped : (paddedDigits width n).dropWhile Char.isDigit = [] :=
    List.dropWhile_eq_nil_iff.mpr paddedDigits_isDigit
  have kept : (paddedDigits width n).take 9 = paddedDigits width n :=
    List.take_of_length_le (Nat.le_trans (Nat.le_of_eq full) short)
  simp only [fraction?, taken, dropped, kept, List.isEmpty_iff, paddedDigits_nonempty, if_false,
    ofDigits_paddedDigits, full, Nat.pow_eq]

theorem fraction?_fractionCharacters {nanosecond : Nat} (bounded : nanosecond < 1000000000) :
    fraction? (fractionCharacters nanosecond) = some (nanosecond, []) := by
  unfold fractionCharacters
  split
  next whole => rw [whole]; rfl
  next =>
    split
    next thousandths =>
      rw [fraction?_paddedDigits (by decide) (by decide) (by omega)]
      simp only [Option.some.injEq, Prod.mk.injEq, and_true]
      omega
    next =>
      split
      next millionths =>
        rw [fraction?_paddedDigits (by decide) (by decide) (by omega)]
        simp only [Option.some.injEq, Prod.mk.injEq, and_true]
        omega
      next =>
        rw [fraction?_paddedDigits (by decide) (by decide) bounded]
        simp only [Nat.sub_self, Nat.pow_zero, Nat.mul_one]

def timeCharacters (t : Timestamp) : List Char :=
  paddedDigits 2 t.hour ++ ':' :: (paddedDigits 2 t.minute ++ ':' :: (paddedDigits 2 t.second ++
    fractionCharacters t.nanosecond))

theorem time?_timeCharacters (t : Timestamp) :
    time? (timeCharacters t) = some ((t.hour, t.minute, t.second, t.nanosecond), []) := by
  obtain ⟨hourBound, minuteBound, secondBound, nanosecondBound⟩ := t.validTime
  have hourSmall : t.hour < 100 := by omega
  have minuteSmall : t.minute < 100 := by omega
  have secondSmall : t.second < 100 := by omega
  simp only [time?, timeCharacters, number?_paddedDigits hourSmall, number?_paddedDigits minuteSmall,
    number?_paddedDigits secondSmall, Option.bind_eq_bind, Option.bind_some, character?, if_true,
    fraction?_fractionCharacters nanosecondBound]

theorem text_toList (t : Timestamp) :
    t.text.toList = dateCharacters t ++ ' ' :: timeCharacters t := by
  simp only [text, textWith, String.toList_append, yearText_toList, padded_toList, fractionText_toList,
    dateCharacters, timeCharacters, List.append_assoc, List.cons_append]
  rfl

theorem paddedDigits_endsVisible (width n : Nat) :
    ∃ start c, paddedDigits width n = start ++ [c] ∧ isBlank c = false := by
  have nonempty : paddedDigits width n ≠ [] := paddedDigits_nonempty
  have digit := paddedDigits_isDigit _ (List.getLast_mem nonempty)
  exact ⟨_, _, (List.dropLast_concat_getLast nonempty).symm, Text.isBlank_of_isDigit digit⟩

theorem fractionCharacters_endsVisible (nanosecond : Nat) :
    fractionCharacters nanosecond = [] ∨
      ∃ start c, fractionCharacters nanosecond = start ++ [c] ∧ isBlank c = false := by
  have afterPoint (width n : Nat) :
      ∃ start c, '.' :: paddedDigits width n = start ++ [c] ∧ isBlank c = false := by
    obtain ⟨start, c, ends, visible⟩ := paddedDigits_endsVisible width n
    exact ⟨'.' :: start, c, by rw [ends, List.cons_append], visible⟩
  unfold fractionCharacters
  split
  · exact .inl rfl
  · split
    · exact .inr (afterPoint 3 _)
    · split
      · exact .inr (afterPoint 6 _)
      · exact .inr (afterPoint 9 _)

theorem timeCharacters_endsVisible (t : Timestamp) :
    ∃ start c, timeCharacters t = start ++ [c] ∧ isBlank c = false := by
  cases fractionCharacters_endsVisible t.nanosecond with
  | inl whole =>
      obtain ⟨start, c, ends, visible⟩ := paddedDigits_endsVisible 2 t.second
      exact ⟨paddedDigits 2 t.hour ++ ':' :: (paddedDigits 2 t.minute ++ ':' :: start), c,
        by simp only [timeCharacters, whole, ends, List.append_nil, List.append_assoc, List.cons_append],
        visible⟩
  | inr fraction =>
      obtain ⟨start, c, ends, visible⟩ := fraction
      exact ⟨paddedDigits 2 t.hour ++ ':' :: (paddedDigits 2 t.minute ++ ':' ::
          (paddedDigits 2 t.second ++ start)), c,
        by simp only [timeCharacters, ends, List.append_assoc, List.cons_append], visible⟩

theorem trimStart_dateCharacters (t : Timestamp) :
    trimStart (dateCharacters t ++ rest) = dateCharacters t ++ rest := by
  simp only [dateCharacters, List.append_assoc, yearCharacters]
  split
  · exact Text.trimStart_digits paddedDigits_isDigit paddedDigits_nonempty _
  · split <;> exact Text.trimStart_cons rfl _

theorem trim_text (t : Timestamp) : Text.trim t.text.toList = t.text.toList := by
  obtain ⟨start, c, ends, visible⟩ := timeCharacters_endsVisible t
  have spread : dateCharacters t ++ ' ' :: timeCharacters t =
      (dateCharacters t ++ ' ' :: start) ++ [c] := by
    rw [ends, List.append_assoc, List.cons_append]
  rw [Text.trim, text_toList, trimStart_dateCharacters, spread, Text.trimEnd_append_singleton visible]

theorem of?_self (t : Timestamp) :
    of? t.year t.month t.day t.hour t.minute t.second t.nanosecond = some t := by
  simp only [of?, dif_pos t.validDate, dif_pos t.validTime]

theorem read?_text (t : Timestamp) : read? t.text = some t := by
  have separated : separator? (' ' :: timeCharacters t) = some ((), timeCharacters t) := by
    have visible : trimStart (timeCharacters t) = timeCharacters t := by
      rw [timeCharacters]
      exact Text.trimStart_digits paddedDigits_isDigit paddedDigits_nonempty _
    have skipped : trimStart (' ' :: timeCharacters t) = trimStart (timeCharacters t) := rfl
    rw [separator?, skipped, visible]
    rintro rest ⟨⟩
  have trimmed : Text.trim t.text.toList = dateCharacters t ++ ' ' :: timeCharacters t := by
    rw [trim_text, text_toList]
  simp only [read?, trimmed, date?_dateCharacters, Option.bind_eq_bind,
    Option.bind_some, List.isEmpty_cons, Bool.false_eq_true, if_false, separated,
    time?_timeCharacters, List.isEmpty_nil, if_true, ofParts?, of?_self]

theorem text_injective : Function.Injective Timestamp.text := by
  intro first second same
  have read := read?_text first
  rw [same, read?_text second] at read
  exact (Option.some.inj read).symm

end ViewEngine.Timestamp
