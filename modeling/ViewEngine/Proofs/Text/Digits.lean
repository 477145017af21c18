import Mathlib.Algebra.Group.Nat.Defs
import ViewEngine.Text.Step
import ViewEngine.Timestamp.Basic

namespace ViewEngine

namespace Number

theorem ofDigits_eq_ofDigitChars (digits : List Char) : ofDigits digits = Nat.ofDigitChars 10 digits 0 :=
  Nat.ofDigitChars_eq_foldl.symm

theorem ofDigits_append_zeros (count : Nat) (digits : List Char) :
    ofDigits (List.replicate count '0' ++ digits) = ofDigits digits := by
  simp only [ofDigits_eq_ofDigitChars, Nat.ofDigitChars_append, Nat.ofDigitChars_replicate_zero,
    Nat.mul_zero]

theorem ofDigits_toDigits (n : Nat) : ofDigits (Nat.toDigits 10 n) = n := by
  rw [ofDigits_eq_ofDigitChars, Nat.ofDigitChars_ten_toDigits]

end Number

theorem toString_natural (n : Nat) : (toString n).toList = Nat.toDigits 10 n := by
  rw [Nat.toString_eq_ofList_toDigits, String.toList_ofList]

theorem isDigit_toString (n : Nat) : ∀ c ∈ (toString n).toList, c.isDigit = true := by
  intro c member
  rw [toString_natural] at member
  exact Nat.isDigit_of_mem_toDigits (by decide) (by decide) member

theorem toString_nonempty (n : Nat) : (toString n).toList ≠ [] := by
  rw [toString_natural]
  exact Nat.toDigits_ne_nil

theorem toString_negSucc (n : Nat) : (toString (Int.negSucc n)).toList = '-' :: (toString (n + 1)).toList :=
  String.toList_append ..

theorem not_mem_digits {c : Char} (noDigit : c.isDigit = false) (n : Nat) : c ∉ (toString n).toList := by
  intro member
  rw [isDigit_toString n c member] at noDigit
  contradiction

theorem not_mem_toString {c : Char} (noDigit : c.isDigit = false) (noSign : c ≠ '-') (n : Int) :
    c ∉ (toString n).toList := by
  cases n with
  | ofNat n => exact not_mem_digits noDigit n
  | negSucc n =>
      rw [toString_negSucc, List.mem_cons, not_or]
      exact ⟨noSign, not_mem_digits noDigit (n + 1)⟩

namespace Number

theorem allDigits?_toString (n : Nat) : allDigits? (toString n).toList = some n := by
  have all : (toString n).toList.all Char.isDigit = true := List.all_eq_true.mpr (isDigit_toString n)
  have filled : (toString n).toList.isEmpty = false := List.isEmpty_eq_false_iff.mpr (toString_nonempty n)
  rw [allDigits?, all, filled, Bool.not_true, Bool.or_false, if_neg Bool.false_ne_true, toString_natural,
    ofDigits_toDigits]

theorem splitSign_digits {digits : List Char} (allDigits : ∀ c ∈ digits, c.isDigit = true) :
    splitSign digits = (false, digits) := by
  unfold splitSign
  split
  next rest =>
    have minus := allDigits '-' (List.mem_cons_self ..)
    contradiction
  next rest =>
    have plus := allDigits '+' (List.mem_cons_self ..)
    contradiction
  next => rfl

theorem int64OfInt?_toInt (n : Int64) : int64OfInt? n.toInt = some n := by
  have lower : -(Nat.pow 2 63 : Int) ≤ n.toInt := n.le_toInt
  have upper : n.toInt < Nat.pow 2 63 := n.toInt_lt
  rw [int64OfInt?, if_pos ⟨lower, upper⟩, Int64.ofInt_toInt]

theorem readInt64?_toString (n : Int64) : readInt64? (toString n.toInt) = some n := by
  have read (negative : Bool) (magnitude : Nat)
      (split : splitSign (toString n.toInt).toList = (negative, (toString magnitude).toList))
      (whole : (if negative then -(magnitude : Int) else magnitude) = n.toInt) :
      readInt64? (toString n.toInt) = some n := by
    rw [readInt64?, split]
    simp only [allDigits?_toString, Option.bind_some, whole, int64OfInt?_toInt]
  cases value : n.toInt with
  | ofNat magnitude =>
      rw [← value]
      refine read false magnitude ?_ (by rw [value]; rfl)
      rw [value]
      exact splitSign_digits (isDigit_toString magnitude)
  | negSucc less =>
      rw [← value]
      refine read true (less + 1) ?_ (by rw [value]; rfl)
      rw [value, toString_negSucc]
      rfl

end Number

namespace Text

theorem isBlank_of_isDigit {c : Char} (digit : c.isDigit = true) : isBlank c = false := by
  simp only [Char.isDigit, Bool.and_eq_true, decide_eq_true_eq] at digit
  have lower : 48 ≤ c.toNat := digit.1
  have upper : c.toNat ≤ 57 := digit.2
  simp only [isBlank, Bool.or_eq_false_iff, Bool.and_eq_false_iff, decide_eq_false_iff_not,
    beq_eq_false_iff_ne]
  omega

theorem trimStart_cons {c : Char} (visible : isBlank c = false) (rest : List Char) :
    trimStart (c :: rest) = c :: rest := by
  simp only [trimStart, List.dropWhile_cons, visible, Bool.false_eq_true, if_false]

theorem trimStart_digits {digits : List Char} (allDigits : ∀ c ∈ digits, c.isDigit = true)
    (nonempty : digits ≠ []) (rest : List Char) : trimStart (digits ++ rest) = digits ++ rest := by
  cases digits with
  | nil => exact absurd rfl nonempty
  | cons c digits =>
      exact trimStart_cons (isBlank_of_isDigit (allDigits c (List.mem_cons_self ..))) _

theorem trimEnd_append_singleton {c : Char} (visible : isBlank c = false) (start : List Char) :
    trimEnd (start ++ [c]) = start ++ [c] := by
  have reversed : (start ++ [c]).reverse = c :: start.reverse := List.reverse_append
  rw [trimEnd, reversed, ← trimStart, trimStart_cons visible, List.reverse_cons, List.reverse_reverse]

/-- A number ends where its width is used up, or at the first character that is no digit. -/
theorem digits?_append {width : Nat} {digits rest : List Char}
    (allDigits : ∀ c ∈ digits, c.isDigit = true) (nonempty : digits ≠ [])
    (fits : digits.length ≤ width)
    (ends : digits.length = width ∨ ∀ c ∈ rest.head?, c.isDigit = false) :
    digits? width (digits ++ rest) = some (Number.ofDigits digits, rest) := by
  have taken : ((digits ++ rest).take width).takeWhile Char.isDigit = digits := by
    rw [List.take_append, List.take_of_length_le fits, List.takeWhile_append_of_pos allDigits]
    have stopped : (rest.take (width - digits.length)).takeWhile Char.isDigit = [] := by
      cases ends with
      | inl full => simp [full]
      | inr stops =>
          cases rest with
          | nil => simp
          | cons c rest =>
              have noDigit : c.isDigit = false := stops c rfl
              cases width - digits.length with
              | zero => rfl
              | succ count => simp [noDigit]
    rw [stopped, List.append_nil]
  simp only [digits?, taken, List.isEmpty_iff, nonempty, if_false, List.drop_left]

end Text

namespace Timestamp

open Text (digits? isBlank_of_isDigit)

def paddedDigits (width n : Nat) : List Char :=
  List.replicate (width - (Nat.toDigits 10 n).length) '0' ++ Nat.toDigits 10 n

theorem padded_toList (width n : Nat) : (padded width n).toList = paddedDigits width n := by
  simp only [padded, paddedDigits, String.toList_append, String.toList_ofList, ← String.length_toList,
    Nat.toString_eq_ofList_toDigits]

theorem paddedDigits_isDigit {width n : Nat} : ∀ c ∈ paddedDigits width n, c.isDigit = true := by
  intro c member
  rcases List.mem_append.mp member with zero | digit
  · rw [List.eq_of_mem_replicate zero]
    rfl
  · exact Nat.isDigit_of_mem_toDigits (by decide) (by decide) digit

theorem paddedDigits_nonempty {width n : Nat} : paddedDigits width n ≠ [] := by
  simp only [paddedDigits, ne_eq, List.append_eq_nil_iff, Nat.toDigits_ne_nil, and_false,
    not_false_eq_true]

theorem ofDigits_paddedDigits (width n : Nat) : Number.ofDigits (paddedDigits width n) = n := by
  rw [paddedDigits, Number.ofDigits_append_zeros, Number.ofDigits_toDigits]

theorem paddedDigits_length {width n : Nat} (positive : 0 < width) (small : n < 10 ^ width) :
    (paddedDigits width n).length = width := by
  have fits : (Nat.toDigits 10 n).length ≤ width :=
    (Nat.length_toDigits_le_iff (by decide) positive).mpr small
  simp only [paddedDigits, List.length_append, List.length_replicate]
  omega

theorem digits?_paddedDigits {width n : Nat} (positive : 0 < width) (small : n < 10 ^ width)
    (rest : List Char) : digits? width (paddedDigits width n ++ rest) = some (n, rest) := by
  have full := paddedDigits_length positive small
  rw [Text.digits?_append paddedDigits_isDigit paddedDigits_nonempty (Nat.le_of_eq full) (.inl full),
    ofDigits_paddedDigits]

end Timestamp

end ViewEngine
