import Mathlib.Algebra.Order.Ring.Nat
import Mathlib.Data.List.Lex
import Mathlib.Data.String.Basic
import Mathlib.Order.Compare

namespace ViewEngine.Text

def octets (s : String) : List Nat :=
  s.toUTF8.data.toList.map UInt8.toNat

def octetsOf (c : Char) : List Nat :=
  (String.utf8EncodeChar c).map UInt8.toNat

theorem octets_eq_flatMap (s : String) : octets s = s.toList.flatMap octetsOf := by
  have encoded : s.toUTF8 = (s.toList.flatMap String.utf8EncodeChar).toByteArray := by
    conv => lhs; rw [← String.ofList_toList (s := s)]
    rfl
  rw [octets, encoded, List.data_toByteArray, List.map_flatMap]
  rfl

theorem octetsOf_eq (c : Char) : octetsOf c =
    if c.toNat ≤ 127 then [c.toNat]
    else if c.toNat ≤ 2047 then [c.toNat / 64 + 192, c.toNat % 64 + 128]
    else if c.toNat ≤ 65535 then [c.toNat / 4096 + 224, c.toNat / 64 % 64 + 128, c.toNat % 64 + 128]
    else [c.toNat / 262144 + 240, c.toNat / 4096 % 64 + 128, c.toNat / 64 % 64 + 128, c.toNat % 64 + 128] := by
  have bound : c.toNat < 1114112 := by
    have valid := c.valid
    have same : c.val.toNat = c.toNat := rfl
    rcases valid with low | high
    all_goals omega
  have same : c.val.toNat = c.toNat := rfl
  unfold octetsOf String.utf8EncodeChar
  simp only [same]
  split_ifs <;> simp only [List.map_cons, List.map_nil, UInt8.toNat_ofNat', List.cons.injEq, and_true] <;> omega

theorem octetsOf_append_lt {c d : Char} (less : c < d) (x y : List Nat) :
    octetsOf c ++ x < octetsOf d ++ y := by
  have smaller : c.toNat < d.toNat := less
  rw [octetsOf_eq, octetsOf_eq]
  split_ifs <;> simp only [List.cons_append, List.nil_append, List.cons_lt_cons_iff] <;> omega

theorem octetsOf_nonempty (c : Char) : octetsOf c ≠ [] := by
  rw [octetsOf_eq]
  split_ifs <;> exact List.cons_ne_nil _ _

/-- Of two texts the octets of the smaller one come first: up to the first character in which the texts differ
the octets are the same, and there they are smaller. -/
theorem flatMap_octetsOf_lt {a b : List Char} (less : a < b) : a.flatMap octetsOf < b.flatMap octetsOf := by
  induction a generalizing b with
  | nil =>
      cases b with
      | nil => exact absurd less (lt_irrefl _)
      | cons d b =>
          cases first : octetsOf d with
          | nil => exact absurd first (octetsOf_nonempty d)
          | cons octet others =>
              rw [List.flatMap_cons, first, List.cons_append, List.flatMap_nil]
              exact List.nil_lt_cons ..
  | cons c a ih =>
      cases b with
      | nil => exact absurd less (List.not_lt_nil _)
      | cons d b =>
          rw [List.flatMap_cons, List.flatMap_cons]
          rcases List.cons_lt_cons_iff.mp less with smaller | ⟨rfl, later⟩
          · exact octetsOf_append_lt smaller _ _
          · exact List.append_left_lt (ih later)

theorem octets_strictMono : StrictMono octets := by
  intro a b less
  rw [octets_eq_flatMap, octets_eq_flatMap]
  exact flatMap_octetsOf_lt (String.lt_iff_toList_lt.mp less)

theorem cmp_octets (a b : String) : cmp (octets a) (octets b) = cmp a b := by
  convert octets_strictMono.cmp_map_eq a b
  rfl

end ViewEngine.Text
