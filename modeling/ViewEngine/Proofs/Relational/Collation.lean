import Mathlib.Algebra.Ring.Int.Defs
import Mathlib.Data.String.Basic
import Mathlib.Order.Compare
import ViewEngine.Proofs.Timestamp.Reading
import ViewEngine.Sql.Literal

/-!
How a database compares the values of its columns. Only what every database does is asked of a
comparison: equality is an equivalence, a value equals its literal, and timestamps are compared in the
order of time, also where one of them is given as text.
-/

namespace ViewEngine

/-- What a column of a stored row can hold: nothing nested, and no float that is no finite number. -/
def Value.isStored : Value → Bool
  | .list _ | .row _ => false
  | .float x => x.isFinite
  | _ => true

def Sql.Literal.value : Sql.Literal → Value
  | .integer n => .int n
  | .float x => .float x
  | .string s => .text s
  | .boolean b => .bool b
  | .null => .null

structure Collation where
  order : Value → Value → Ordering
  /-- Whether a text matches a pattern. -/
  matchesPattern : String → String → Bool
  /-- The text that a value is cast to. -/
  textOf : Value → String
  order_self {v : Value} : v.isStored = true → order v v = .eq
  order_symm {a b : Value} : a.isStored = true → b.isStored = true →
    order a b = .eq → order b a = .eq
  order_trans {a b c : Value} : a.isStored = true → b.isStored = true → c.isStored = true →
    order a b = .eq → order b c = .eq → order a c = .eq
  order_literal {v : Value} : v.isStored = true → order v v.literal.value = .eq
  order_timestamps (a b : Timestamp) : order (.timestamp a) (.timestamp b) = cmp a b
  order_timestampText (a b : Timestamp) : order (.timestamp a) (.text b.text) = cmp a b

namespace Double

/-- The number in units of the least positive one. What is no finite number lies beyond all others. -/
def units : Double → Int
  | .finite negative significand exponent _ =>
    let magnitude := significand * 2 ^ (exponent + 1074).toNat
    if negative then -(magnitude : Int) else magnitude
  | .infinite negative => if negative then -2 ^ 2100 else 2 ^ 2100
  | .notANumber => 2 ^ 2101

end Double

/-- Values that are compared with one another, each kind by a value of its own. -/
inductive SortKey where
  | null
  | truth (value : Bool)
  | number (value : Int)
  | text (value : String)
  | nested
deriving DecidableEq

namespace SortKey

def rank : SortKey → Nat
  | .null => 0
  | .truth _ => 1
  | .number _ => 2
  | .text _ => 3
  | .nested => 4

def order : SortKey → SortKey → Ordering
  | .truth a, .truth b => cmp a b
  | .number a, .number b => cmp a b
  | .text a, .text b => cmp a b
  | a, b => cmp a.rank b.rank

theorem order_eq_iff (a b : SortKey) : a.order b = .eq ↔ a = b := by
  cases a <;> cases b <;> exact (cmp_eq_eq_iff _ _).trans (by simp [rank])

end SortKey

namespace Value

def sortKey : Value → SortKey
  | .null => .null
  | .bool b => .truth b
  | .int n => .number (n.toInt * 2 ^ 1074)
  | .float x => .number x.units
  | .text s => .text s
  | .timestamp t => .text t.text
  | .list _ | .row _ => .nested

def orderAsTime (t : Timestamp) (s : String) : Ordering :=
  match (Timestamp.read? s).filter (·.text = s) with
  | some other => cmp t other
  | none => cmp t.text s

def standardOrder : Value → Value → Ordering
  | .timestamp a, .timestamp b => cmp a b
  | .timestamp a, .text b => orderAsTime a b
  | .text a, .timestamp b => (orderAsTime b a).swap
  | a, b => a.sortKey.order b.sortKey

theorem orderAsTime_text (a b : Timestamp) : orderAsTime a b.text = cmp a b := by
  have found : (Timestamp.read? b.text).filter (·.text = b.text) = some b := by
    simp only [Timestamp.read?_text, Option.filter_some, decide_true, if_true]
  rw [orderAsTime, found]

theorem orderAsTime_eq_iff (t : Timestamp) (s : String) : orderAsTime t s = .eq ↔ t.text = s := by
  unfold orderAsTime
  cases found : (Timestamp.read? s).filter (·.text = s) with
  | some other =>
      have written : other.text = s := by
        simpa using (Option.filter_eq_some_iff.mp found).2
      rw [cmp_eq_eq_iff, ← written, Timestamp.text_injective.eq_iff]
  | none => exact cmp_eq_eq_iff ..

theorem standardOrder_eq_iff (a b : Value) : standardOrder a b = .eq ↔ a.sortKey = b.sortKey := by
  have timestamps (a b : Timestamp) : cmp a b = .eq ↔ a.text = b.text := by
    rw [cmp_eq_eq_iff, Timestamp.text_injective.eq_iff]
  unfold standardOrder
  split
  · rw [timestamps, sortKey, sortKey, SortKey.text.injEq]
  · simp only [orderAsTime_eq_iff, sortKey, SortKey.text.injEq]
  · rw [Ordering.swap_eq_eq, orderAsTime_eq_iff, sortKey, sortKey, SortKey.text.injEq, eq_comm]
  · exact SortKey.order_eq_iff ..

theorem sortKey_literal {v : Value} (stored : v.isStored = true) :
    v.literal.value.sortKey = v.sortKey := by
  cases v with
  | list items => contradiction
  | row fields => contradiction
  | _ => rfl

end Value

/-- Whether a text matches a pattern, in which `%` stands for any characters and `_` for any one. -/
def likePattern : List Char → List Char → Bool
  | [], subject => subject.isEmpty
  | '%' :: pattern, subject => subject.tails.any (likePattern pattern)
  | '_' :: pattern, subject =>
    match subject with
    | [] => false
    | _ :: subject => likePattern pattern subject
  | c :: pattern, subject =>
    match subject with
    | [] => false
    | first :: subject => c == first && likePattern pattern subject

/-- The comparison of a database that keeps texts and their case apart. -/
def Collation.standard : Collation where
  order := Value.standardOrder
  matchesPattern subject pattern := likePattern pattern.toList subject.toList
  textOf := Value.toText
  order_self _ := (Value.standardOrder_eq_iff ..).mpr rfl
  order_symm _ _ same :=
    (Value.standardOrder_eq_iff ..).mpr ((Value.standardOrder_eq_iff ..).mp same).symm
  order_trans _ _ _ first second :=
    (Value.standardOrder_eq_iff ..).mpr
      (((Value.standardOrder_eq_iff ..).mp first).trans ((Value.standardOrder_eq_iff ..).mp second))
  order_literal stored := (Value.standardOrder_eq_iff ..).mpr (Value.sortKey_literal stored).symm
  order_timestamps _ _ := rfl
  order_timestampText := Value.orderAsTime_text

end ViewEngine
