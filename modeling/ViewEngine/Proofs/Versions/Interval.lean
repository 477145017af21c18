import Mathlib.Data.List.Nodup
import ViewEngine.Proofs.Relational.Evaluation
import ViewEngine.Proofs.Schema.Entities
import ViewEngine.View.Constraint

/-!
Rows that are versions: the interval of time in which a row is valid, and what the condition on
versions means for it.
-/

namespace ViewEngine

/-- The instants from an opening one on, up to and without a closing one if there is one. -/
structure Interval where
  opening : Timestamp
  closing : Option Timestamp
deriving DecidableEq

namespace Interval

variable {i j : Interval} {t : Timestamp}

def Covers (i : Interval) (t : Timestamp) : Prop :=
  i.opening ≤ t ∧ ∀ closing, i.closing = some closing → t < closing

def Disjoint (i j : Interval) : Prop :=
  ∀ t, i.Covers t → ¬ j.Covers t

def Nonempty (i : Interval) : Prop :=
  ∃ t, i.Covers t

theorem Disjoint.symm (apart : i.Disjoint j) : j.Disjoint i :=
  fun t second first => apart t first second

theorem Nonempty.covers_opening (nonempty : i.Nonempty) : i.Covers i.opening := by
  obtain ⟨t, began, lasts⟩ := nonempty
  exact ⟨le_refl _, fun closing ends => lt_of_le_of_lt began (lasts closing ends)⟩

theorem nonempty_open (opening : Timestamp) : Nonempty ⟨opening, none⟩ :=
  ⟨opening, le_refl _, by simp⟩

theorem Disjoint.of_ended {opening closing : Timestamp} (apart : i.Disjoint ⟨opening, none⟩) :
    i.Disjoint ⟨opening, some closing⟩ :=
  fun t covered ended => apart t covered ⟨ended.1, by simp⟩

/-- What does not meet an open interval does not meet one that begins later either. -/
theorem Disjoint.of_later {opening later : Timestamp} (ordered : opening ≤ later)
    (apart : i.Disjoint ⟨opening, none⟩) : i.Disjoint ⟨later, none⟩ :=
  fun t covered open_ => apart t covered ⟨le_trans ordered open_.1, by simp⟩

theorem disjoint_ended_open (opening closing : Timestamp) :
    Disjoint ⟨opening, some closing⟩ ⟨closing, none⟩ :=
  fun _ ended open_ => absurd open_.1 (not_le.mpr (ended.2 closing rfl))

end Interval

namespace Record

/-- The interval that the version columns of a row hold. -/
def interval? (version : VersionColumns) (record : Record) : Option Interval :=
  match record version.opening.columnName, record version.closing.columnName with
  | .timestamp opening, .null => some ⟨opening, none⟩
  | .timestamp opening, .timestamp closing => some ⟨opening, some closing⟩
  | _, _ => none

theorem interval?_eq_open_iff {version : VersionColumns} {record : Record} {opening : Timestamp} :
    record.interval? version = some ⟨opening, none⟩ ↔
      record version.opening.columnName = .timestamp opening ∧
        record version.closing.columnName = .null := by
  unfold interval?
  split <;> simp_all

/-- An interval is open exactly if the row has no closing time. -/
theorem interval?_closing {version : VersionColumns} {record : Record} {i : Interval}
    (dated : record.interval? version = some i) :
    (record version.closing.columnName).isNull = true ↔ i.closing = none := by
  unfold interval? at dated
  split at dated
  next ends => cases dated; simp [ends, Value.isNull]
  next ends => cases dated; simp [ends, Value.isNull]
  next => contradiction

theorem interval?_opening {version : VersionColumns} {record : Record} {i : Interval}
    (dated : record.interval? version = some i) :
    record version.opening.columnName = .timestamp i.opening := by
  unfold interval? at dated
  split at dated
  next begins _ => cases dated; exact begins
  next begins _ => cases dated; exact begins
  next => contradiction

theorem interval?_of_isNull {version : VersionColumns} {record : Record} {i : Interval}
    (dated : record.interval? version = some i)
    (null : (record version.closing.columnName).isNull = true) :
    record.interval? version = some ⟨i.opening, none⟩ := by
  rw [dated, ← (interval?_closing dated).mp null]

theorem opening_ne_closing {version : VersionColumns} {record : Record} {opening : Timestamp}
    (isOpen : record.interval? version = some ⟨opening, none⟩) :
    version.opening.columnName ≠ version.closing.columnName := by
  obtain ⟨begins, ends⟩ := interval?_eq_open_iff.mp isOpen
  intro same
  rw [same, ends] at begins
  contradiction

end Record

namespace Frame

def ofRow (record : Record) : Frame :=
  { rows := fun _ => record }

end Frame

namespace Entity

open Sql

/-- Whether a row is a version that is read at a point in time, or now. -/
def isRead (c : Collation) (e : Entity) (pointInTime : Option Timestamp) (record : Record) : Bool :=
  (e.versionConstraint? pointInTime 0).all (·.holds c (.ofRow record))

def sameKey (c : Collation) (e : Entity) (a b : Record) : Bool :=
  e.identityKeys.all fun key => (c.equal (a key.columnName) (b key.columnName)).holds

/-- The version columns of an entity are columns of times. -/
structure IsVersioned (e : Entity) (version : VersionColumns) : Prop where
  declared : e.version = some version
  opening : version.opening ∈ e.scalars
  closing : version.closing ∈ e.scalars
  openingTemporal : version.opening.columnType.isTemporal = true
  closingTemporal : version.closing.columnType.isTemporal = true

end Entity

theorem ColumnType.coerce_timestamp {type : ColumnType} (temporal : type.isTemporal = true)
    (t : Timestamp) : type.coerce (.timestamp t) = .timestamp t := by
  cases type <;> first | rfl | contradiction

namespace Entity

open Sql

variable {c : Collation} {e : Entity} {version : VersionColumns} {record : Record} {i : Interval}

theorem IsVersioned.versionConstraint? (versioned : e.IsVersioned version) (t : Timestamp)
    (table : Nat) :
    e.versionConstraint? (some t) table = some
      (((Expr.columnOf table version.opening.columnName).atMost (.string t.text)).conjoined
        (((Expr.columnOf table version.closing.columnName).greater (.string t.text)).disjoined
          (Expr.columnOf table version.closing.columnName).isNull)) := by
  have opening := Attribute.column_of_scalar versioned.opening
  have closing := Attribute.column_of_scalar versioned.closing
  have literalOpening : version.opening.columnType.literal (.timestamp t) = .string t.text := by
    rw [ColumnType.literal, ColumnType.coerce_timestamp versioned.openingTemporal]
    rfl
  have literalClosing : version.closing.columnType.literal (.timestamp t) = .string t.text := by
    rw [ColumnType.literal, ColumnType.coerce_timestamp versioned.closingTemporal]
    rfl
  simp only [Entity.versionConstraint?, versioned.declared, opening, closing, literalOpening,
    literalClosing]

/-- The version constraint at an instant asks for the rows whose interval covers it. -/
theorem isRead_iff_covers (versioned : e.IsVersioned version)
    (dated : record.interval? version = some i) (t : Timestamp) :
    e.isRead c (some t) record = true ↔ i.Covers t := by
  have opening := Record.interval?_opening dated
  have began : (((Expr.columnOf 0 version.opening.columnName).atMost (.string t.text)).holds c
      (.ofRow record)) = true ↔ i.opening ≤ t := by
    simp only [Expr.holds, Expr.atMost, Expr.eval, Operator.apply, Expr.eval_columnOf, Expr.string,
      Sql.Literal.value, Frame.ofRow, opening, Value.truth_value, Collation.compare, Value.isNull,
      Bool.or_false, Bool.false_eq_true, if_false, Truth.holds_some, bne_iff_ne, ne_eq]
    rw [Collation.order_timestampText, cmp_eq_gt_iff, not_lt]
  rw [isRead, versioned.versionConstraint? t 0, Option.all_some, Expr.holds_conjoined, Bool.and_eq_true,
    began, Expr.holds_disjoined, Expr.holds_isNull, Expr.eval_columnOf, Bool.or_eq_true, Interval.Covers]
  refine and_congr_right fun _ => ?_
  cases ends : i.closing with
  | none => simp [Frame.ofRow, (Record.interval?_closing dated).mpr ends]
  | some closing =>
      have held : record version.closing.columnName = .timestamp closing := by
        unfold Record.interval? at dated
        split at dated
        · cases dated; contradiction
        · next found => cases dated; cases ends; exact found
        · contradiction
      simp only [Expr.holds, Expr.greater, Expr.eval, Operator.apply, Expr.eval_columnOf, Expr.string,
        Sql.Literal.value, Frame.ofRow, held, Value.truth_value, Collation.compare, Value.isNull,
        Bool.or_false, Bool.false_eq_true, if_false, Truth.holds_some, beq_iff_eq, or_false]
      rw [Collation.order_timestampText, cmp_eq_gt_iff]
      simp

end Entity

end ViewEngine
