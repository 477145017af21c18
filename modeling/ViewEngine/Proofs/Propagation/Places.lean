import Mathlib.Data.List.Infix
import ViewEngine.View.Path

/-!
Places in a row: the properties and positions that lead to a value. A change of a node leaves alone
what stands at any place that does not overlap the changed one.
-/

namespace ViewEngine

inductive PlaceStep where
  | property (name : String)
  | position (number : Nat)
deriving DecidableEq

abbrev Place := List PlaceStep

/-- One of two places leads through the other, or they are the same. -/
def Place.Overlaps (a b : Place) : Prop :=
  a <+: b ∨ b <+: a

instance (a b : Place) : Decidable (a.Overlaps b) :=
  inferInstanceAs (Decidable (_ ∨ _))

def Value.isEntered : Value → Bool
  | .row _ | .list _ | .null => true
  | _ => false

/-- A change at a place leaves the value at another one alone: it is not made on the way there, and not within the
value, unless nothing can be changed within it. -/
def Place.Spares (changed place : Place) (value : Value) : Prop :=
  ¬ changed <+: place ∧ (value.isEntered = true → ¬ place <+: changed)

namespace Place

variable {changed place : Place} {s t : PlaceStep} {value : Value}

theorem spares_of_apart (apart : ¬ place.Overlaps changed) : changed.Spares place value :=
  ⟨fun leads => apart (.inr leads), fun _ leads => apart (.inl leads)⟩

theorem Spares.not_entered (spared : changed.Spares [] value) : value.isEntered = false :=
  Bool.eq_false_iff.mpr fun entered => spared.2 entered List.nil_prefix

theorem Spares.of_cons (spared : Spares (s :: changed) (s :: place) value) : changed.Spares place value :=
  ⟨fun leads => spared.1 (List.cons_prefix_cons.mpr ⟨rfl, leads⟩),
    fun entered leads => spared.2 entered (List.cons_prefix_cons.mpr ⟨rfl, leads⟩)⟩

end Place

def Value.atPlace? : Value → Place → Option Value
  | value, [] => some value
  | .row fields, .property name :: rest => (Keyed.get? fields name).bind fun value => value.atPlace? rest
  | .list items, .position number :: rest => items[number]?.bind fun value => value.atPlace? rest
  | _, _ => none

theorem Value.atPlace?_append (value : Value) (place rest : Place) :
    value.atPlace? (place ++ rest) = (value.atPlace? place).bind (·.atPlace? rest) := by
  induction place generalizing value with
  | nil => rfl
  | cons step others ih =>
      cases value <;> cases step <;> simp only [List.cons_append, atPlace?, Option.bind_none] <;>
        rw [Option.bind_assoc] <;> simp only [ih]

namespace PathStep

def place (s : PathStep) : Place :=
  .property s.property :: s.position.toList.map .position

end PathStep

def Path.placeOf (steps : List PathStep) (property : String) : Place :=
  steps.flatMap PathStep.place ++ [.property property]

theorem Path.placeOf_cons (step : PathStep) (rest : List PathStep) (property : String) :
    placeOf (step :: rest) property =
      .property step.property :: (step.position.toList.map .position ++ placeOf rest property) := by
  simp only [placeOf, List.flatMap_cons, PathStep.place, List.cons_append, List.append_assoc]

namespace Row

open Value

variable {row : Row} {steps : List PathStep} {step : PathStep} {property : String} {value : Value}
  {place : Place}

theorem atPlace?_insert_self (key : String) (held : Value) (rest : Place) (row : Row) :
    (Value.row (Keyed.insert key held row)).atPlace? (.property key :: rest) = held.atPlace? rest := by
  simp only [atPlace?, Keyed.get?_insert_self, Option.bind_some]

theorem atPlace?_insert_of_ne {key name : String} (different : name ≠ key) (held : Value) (rest : Place)
    (row : Row) : (Value.row (Keyed.insert key held row)).atPlace? (.property name :: rest) =
      (Value.row row).atPlace? (.property name :: rest) := by
  simp only [atPlace?, Keyed.get?_insert_of_ne different]

/-- What stands below a property, if the property is there. -/
theorem atPlace?_property {name : String} {rest : Place}
    (stands : (Value.row row).atPlace? (.property name :: rest) = some value) :
    ((Keyed.get? row name).getD .null).atPlace? rest = some value := by
  simp only [atPlace?] at stands
  obtain ⟨held, found, stands⟩ := Option.bind_eq_some_iff.mp stands
  rwa [found, Option.getD_some]

theorem row_of_atPlace? {held : Value} {name : String} {rest : Place}
    (stands : held.atPlace? (.property name :: rest) = some value) : ∃ fields, held = .row fields := by
  cases held with
  | row fields => exact ⟨fields, rfl⟩
  | _ => simp [atPlace?] at stands

theorem row_of_flatMap {held : Value} {fields : Row}
    (stands : held.atPlace? (steps.flatMap PathStep.place) = some (.row fields)) : ∃ above, held = .row above := by
  cases steps with
  | nil => exact ⟨fields, Option.some.inj stands⟩
  | cons step rest => exact row_of_atPlace? (List.flatMap_cons ▸ stands)

theorem atPlace?_alterAlong (altered : (row.alterAlong (Keyed.insert property value ·) steps).2 = .ok ()) :
    (Value.row (row.alterAlong (Keyed.insert property value ·) steps).1).atPlace?
      (Path.placeOf steps property) = some value := by
  induction steps generalizing row with
  | nil => exact atPlace?_insert_self property value [] row
  | cons step rest ih =>
      have entered {held : Value}
          (outcome : (enterAssociation (alterAlong (Keyed.insert property value ·) rest) held).2 = .ok ()) :
          (enterAssociation (alterAlong (Keyed.insert property value ·) rest) held).1.atPlace?
            (Path.placeOf rest property) = some value := by
        cases held with
        | row fields => exact ih outcome
        | null => exact ih outcome
        | _ => contradiction
      obtain ⟨name, position⟩ := step
      rw [Path.placeOf_cons]
      unfold alterAlong at altered ⊢
      simp only at altered ⊢
      rw [atPlace?_insert_self]
      generalize (Keyed.get? row name).getD .null = held at altered ⊢
      cases position with
      | none => exact entered altered
      | some position =>
          cases held with
          | list items =>
              simp only at altered ⊢
              cases found : items[position]? with
              | none =>
                  rw [found] at altered
                  contradiction
              | some item =>
                  rw [found] at altered
                  obtain ⟨inside, -⟩ := List.getElem?_eq_some_iff.mp found
                  have stands := entered altered
                  simpa [atPlace?, inside] using stands
          | _ => contradiction

theorem atPlace?_set {items : List Value} {position : Nat} {item changed other : Value} {below rest : Place}
    (found : items[position]? = some item) (stands : (Value.list items).atPlace? below = some other)
    (spared : Place.Spares (.position position :: rest) below other)
    (inside : ∀ deeper, item.atPlace? deeper = some other → Place.Spares rest deeper other →
      changed.atPlace? deeper = some other) :
    (Value.list (items.set position changed)).atPlace? below = some other := by
  match below with
  | [] =>
      cases stands
      cases spared.not_entered
  | .property _ :: _ => exact stands
  | .position number :: deeper =>
      simp only [atPlace?] at stands ⊢
      by_cases same : number = position
      · subst same
        obtain ⟨bound, -⟩ := List.getElem?_eq_some_iff.mp found
        rw [found, Option.bind_some] at stands
        rw [List.getElem?_set_self bound, Option.bind_some]
        exact inside deeper stands spared.of_cons
      · rwa [List.getElem?_set_ne (Ne.symm same)]

theorem atPlace?_alterAlong_of_spared {other : Value}
    (stands : (Value.row row).atPlace? place = some other)
    (spared : (Path.placeOf steps property).Spares place other) :
    (Value.row (row.alterAlong (Keyed.insert property value ·) steps).1).atPlace? place = some other := by
  induction steps generalizing row place with
  | nil =>
      match place with
      | [] =>
          cases stands
          cases spared.not_entered
      | .position _ :: _ => exact stands
      | .property name :: rest =>
          by_cases same : name = property
          · subst same
            exact absurd (List.cons_prefix_cons.mpr ⟨rfl, List.nil_prefix⟩) spared.1
          · rwa [alterAlong, atPlace?_insert_of_ne same]
  | cons step rest ih =>
      have entered {held : Value} {below : Place} (stands : held.atPlace? below = some other)
          (spared : (Path.placeOf rest property).Spares below other) :
          (enterAssociation (alterAlong (Keyed.insert property value ·) rest) held).1.atPlace? below =
            some other := by
        cases held with
        | row fields => exact ih stands spared
        | null =>
            cases below with
            | nil =>
                cases stands
                cases spared.not_entered
            | cons _ _ => simp [atPlace?] at stands
        | _ => exact stands
      obtain ⟨key, position⟩ := step
      rw [Path.placeOf_cons] at spared
      match place with
      | [] =>
          cases stands
          cases spared.not_entered
      | .position _ :: _ => exact stands
      | .property name :: below =>
          unfold alterAlong
          simp only
          by_cases same : name = key
          · subst same
            rw [atPlace?_insert_self]
            have stands := atPlace?_property stands
            have spared := spared.of_cons
            generalize (Keyed.get? row name).getD .null = held at stands ⊢
            cases position with
            | none => exact entered stands spared
            | some position =>
                cases held with
                | list items =>
                    simp only
                    cases found : items[position]? with
                    | none => exact stands
                    | some item => exact atPlace?_set found stands spared fun _ => entered
                | _ => exact stands
          · rwa [atPlace?_insert_of_ne same]

/-- The first step towards a row leads into a row, where the other steps go on. -/
theorem exists_row_below {fields : Row}
    (stands : (Value.row row).atPlace? ((step :: steps).flatMap PathStep.place) = some (.row fields)) : ∃ below,
      (Value.row below).atPlace? (steps.flatMap PathStep.place) = some (.row fields) ∧
      row.follow (step :: steps) = Row.follow steps below ∧
      ∀ change, (row.alterAlong change (step :: steps)).2 = (Row.alterAlong change steps below).2 := by
  obtain ⟨name, position⟩ := step
  have stands := atPlace?_property (List.flatMap_cons ▸ stands)
  simp only [follow, alterAlong]
  generalize (Keyed.get? row name).getD .null = held at stands ⊢
  cases position with
  | none =>
      obtain ⟨below, rfl⟩ := row_of_flatMap stands
      exact ⟨below, stands, rfl, fun _ => rfl⟩
  | some position =>
      cases held with
      | list items =>
          obtain ⟨item, found, stands⟩ := Option.bind_eq_some_iff.mp stands
          obtain ⟨below, rfl⟩ := row_of_flatMap stands
          simp only [found]
          exact ⟨below, stands, rfl, fun _ => rfl⟩
      | _ => simp [atPlace?] at stands

theorem follow_of_row {fields : Row}
    (stands : (Value.row row).atPlace? (steps.flatMap PathStep.place) = some (.row fields)) :
    row.follow steps = .ok (some fields) := by
  induction steps generalizing row with
  | nil =>
      cases stands
      rfl
  | cons step rest ih =>
      obtain ⟨below, stands, followed, -⟩ := exists_row_below stands
      exact followed.trans (ih stands)

theorem follow_of_atPlace? (stands : (Value.row row).atPlace? (Path.placeOf steps property) = some value) :
    ∃ node, row.follow steps = .ok (some node) ∧ Keyed.get? node property = some value := by
  obtain ⟨held, above, stands⟩ := Option.bind_eq_some_iff.mp (atPlace?_append .. ▸ stands)
  obtain ⟨fields, rfl⟩ := row_of_atPlace? stands
  obtain ⟨found, held, same⟩ := Option.bind_eq_some_iff.mp stands
  cases same
  exact ⟨fields, follow_of_row above, held⟩

end Row

end ViewEngine
