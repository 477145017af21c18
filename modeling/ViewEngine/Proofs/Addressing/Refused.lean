import ViewEngine.Proofs.Addressing.Written
import ViewEngine.Proofs.WriteBack.Drafts

/-!
A value that cannot be set. Nothing is recorded as changed, and no value is replaced by another one; but the
associations to no row on the way have become rows, and missing properties null.
-/

namespace ViewEngine

namespace Row

/-- The properties of the row, and of each row within, are in their order. -/
def IsOrdered (row : Row) : Prop :=
  ∀ place fields, (Value.row row).atPlace? place = some (.row fields) → Keyed.IsAscending fields

def isInterrupted (within : Row → Bool) : Value → Bool
  | .row fields => within fields
  | .null => true
  | _ => false

def meetsNull : List PathStep → Row → Bool
  | [], _ => false
  | step :: rest, row =>
    match Keyed.get? row step.property, step.position with
    | none, _ => true
    | some (.list items), some position => items[position]?.any (isInterrupted (meetsNull rest))
    | some _, some _ => false
    | some held, none => isInterrupted (meetsNull rest) held

open Value

variable {row fields : Row} {steps rest : List PathStep} {step : PathStep} {name : String} {held item : Value}
  {items : List Value} {position : Nat} {fault : PathFault} {change : Row → Row}

theorem IsOrdered.ascending (ordered : row.IsOrdered) : Keyed.IsAscending row :=
  ordered [] row rfl

theorem IsOrdered.of_property (ordered : row.IsOrdered) (found : Keyed.get? row name = some (.row fields)) :
    fields.IsOrdered := by
  intro place inner stands
  refine ordered (.property name :: place) inner ?_
  rwa [atPlace?, found]

theorem IsOrdered.of_element (ordered : row.IsOrdered) (found : Keyed.get? row name = some (.list items))
    (inside : items[position]? = some (.row fields)) : fields.IsOrdered := by
  intro place inner stands
  refine ordered (.property name :: .position position :: place) inner ?_
  rwa [atPlace?, found, Option.bind_some, atPlace?, inside]

theorem exists_of_clear (clear : meetsNull (step :: rest) row = false) :
    ∃ held, Keyed.get? row step.property = some held ∧
      (step.position = none → isInterrupted (meetsNull rest) held = false) ∧
      ∀ position items item, step.position = some position → held = .list items → items[position]? = some item →
        isInterrupted (meetsNull rest) item = false := by
  unfold meetsNull at clear
  cases found : Keyed.get? row step.property with
  | none => simp [found] at clear
  | some held =>
      refine ⟨held, rfl, fun plain => ?_, fun position items item chosen isList inside => ?_⟩
      · simpa [found, plain] using clear
      · subst isList
        simpa [found, chosen, inside] using clear

theorem enterAssociation_eq (clear : isInterrupted (meetsNull rest) held = false)
    (inside : ∀ fields, held = .row fields → meetsNull rest fields = false →
      (alterAlong change rest fields).1 = fields) :
    (enterAssociation (alterAlong change rest) held).1 = held := by
  cases held with
  | row fields => exact congrArg Value.row (inside fields rfl clear)
  | null => contradiction
  | _ => rfl

theorem alterAlong_eq (ordered : row.IsOrdered) (failed : (row.alterAlong change steps).2 = .error fault)
    (clear : row.meetsNull steps = false) : (row.alterAlong change steps).1 = row := by
  induction steps generalizing row with
  | nil => contradiction
  | cons step rest ih =>
      obtain ⟨held, found, clearly, among⟩ := exists_of_clear clear
      have kept := ordered.ascending.insert_of_get? found
      have present : (Keyed.get? row step.property).getD .null = held := by rw [found, Option.getD_some]
      obtain ⟨plain, altered⟩ | ⟨position, items, item, chosen, isList, inside, altered⟩ |
        ⟨position, _, chosen, -, altered⟩ := alterAlong_cons_cases change step rest row
      · rw [altered, present] at failed ⊢
        have same : (enterAssociation (alterAlong change rest) held).1 = held := by
          refine enterAssociation_eq (clearly plain) ?_
          rintro fields rfl clear
          exact ih (ordered.of_property found) failed clear
        rw [same]
        exact kept
      · obtain rfl := present.symm.trans isList
        rw [altered] at failed ⊢
        have same : (enterAssociation (alterAlong change rest) item).1 = item := by
          refine enterAssociation_eq (among position items item chosen rfl inside) ?_
          rintro fields rfl clear
          exact ih (ordered.of_element found inside) failed clear
        obtain ⟨bound, rfl⟩ := List.getElem?_eq_some_iff.mp inside
        rw [same, List.set_getElem_self]
        exact kept
      · rw [altered, present]
        exact kept

theorem enterAssociation_ne (interrupted : isInterrupted (meetsNull rest) held = true)
    (inside : ∀ fields, meetsNull rest fields = true → (alterAlong change rest fields).1 ≠ fields) :
    (enterAssociation (alterAlong change rest) held).1 ≠ held := by
  intro same
  cases held with
  | row fields => exact inside fields interrupted (Value.row.inj same)
  | null => cases same
  | _ => contradiction

theorem alterAlong_ne (meets : row.meetsNull steps = true) : (row.alterAlong change steps).1 ≠ row := by
  induction steps generalizing row with
  | nil => contradiction
  | cons step rest ih =>
      intro same
      have value := congrArg (Keyed.get? · step.property) same
      have entered {held : Value} (interrupted : isInterrupted (meetsNull rest) held = true) :
          (enterAssociation (alterAlong change rest) held).1 ≠ held := enterAssociation_ne interrupted fun _ => ih
      unfold meetsNull at meets
      obtain ⟨plain, altered⟩ | ⟨position, items, item, chosen, isList, inside, altered⟩ |
        ⟨position, fault, chosen, outside, altered⟩ := alterAlong_cons_cases change step rest row
      · rw [altered] at value
        simp only [Keyed.get?_insert_self] at value
        cases found : Keyed.get? row step.property with
        | none => simp [found] at value
        | some held =>
            rw [found, Option.getD_some, Option.some.injEq] at value
            refine entered ?_ value
            simpa [found, plain] using meets
      · rw [altered] at value
        simp only [Keyed.get?_insert_self] at value
        have unchanged : items.set position (enterAssociation (alterAlong change rest) item).1 = items :=
          Value.list.inj (by rw [← isList, ← value, Option.getD_some])
        rw [unchanged] at value
        rw [← value, chosen] at meets
        obtain ⟨bound, rfl⟩ := List.getElem?_eq_some_iff.mp inside
        have same := congrArg (·[position]?) unchanged
        simp only [List.getElem?_set_self bound, inside, Option.some.injEq] at same
        refine entered ?_ same
        simpa [inside] using meets
      · cases found : Keyed.get? row step.property with
        | none => simp [altered, found, Keyed.get?_insert_self] at value
        | some held =>
            rw [found, chosen] at meets
            cases held with
            | list items => simp [outside items (by rw [found, Option.getD_some])] at meets
            | _ => contradiction

/-- What a change that fails has done to the row: at most it was entered along the steps. -/
structure Enters (steps : List PathStep) (before after : Row) : Prop where
  onWay : ∀ place, place <+: steps.flatMap PathStep.place →
    Touched ((Value.row before).atPlace? place) ((Value.row after).atPlace? place)
  aside : ∀ place, ¬ place <+: steps.flatMap PathStep.place →
    (Value.row after).atPlace? place = (Value.row before).atPlace? place
  changed : before.meetsNull steps = true → after ≠ before
  unchanged : before.IsOrdered → before.meetsNull steps = false → after = before

theorem enters_alterAlong {property : String} {value : Value}
    (failed : (row.alterAlong (Keyed.insert property value ·) steps).2 = .error fault) :
    Enters steps row (row.alterAlong (Keyed.insert property value ·) steps).1 where
  onWay _ leads := touched_alterAlong _ leads
  aside _ apart := atPlace?_alterAlong_aside apart (.inl ⟨fault, failed⟩)
  changed := alterAlong_ne
  unchanged ordered clear := alterAlong_eq ordered failed clear

theorem enters_alterNode {node property : String} {value : Value} {cause : ViewError}
    (failed : (row.alterNode node (Keyed.insert property value ·)).2 = .error cause) :
    (row.alterNode node (Keyed.insert property value ·)).1 = row ∨
      ∃ steps, Path.read node = .ok steps ∧
        Enters steps row (row.alterNode node (Keyed.insert property value ·)).1 := by
  unfold alterNode at failed ⊢
  split at failed
  next root => contradiction
  next below =>
    rw [if_neg below]
    cases readable : Path.read node with
    | error fault => exact .inl rfl
    | ok steps =>
        simp only [readable] at failed
        refine .inr ⟨steps, rfl, ?_⟩
        cases outcome : (row.alterAlong (Keyed.insert property value ·) steps).2 with
        | ok done => simp [outcome, Except.mapError] at failed
        | error fault => exact enters_alterAlong outcome

end Row

theorem ViewRow.assign_of_error {r : ViewRow} {node property : String} {value : Value} {cause : ViewError}
    (failed : (r.assign node property value).2 = .error cause) : (r.assign node property value).1 =
      { r with data := (r.data.alterNode node (Keyed.insert property value ·)).1 } := by
  unfold assign at failed ⊢
  split
  next altered =>
    rw [altered] at failed
    contradiction
  next altered => rw [altered]

section

variable {v : View} {row : Nat} {path : String} {value : Value} {cause : ViewError}

theorem View.setValue_eq_error (failed : (v.setValue value row path).2 = .error cause) :
    (v.setValue value row path).1 = v ∨ ∃ number positional r,
      v.resolve row path = .ok (number, positional) ∧ v.rows[number]? = some r ∧
        (r.assign (Path.node positional) (Path.property positional) value).2 = .error cause ∧
        (v.setValue value row path).1 = { v with
          rows := v.rows.set number (r.assign (Path.node positional) (Path.property positional) value).1 } := by
  unfold setValue at failed ⊢
  split at failed
  · exact .inl rfl
  next number positional found =>
    split at failed
    · exact .inl rfl
    next r standing =>
      simp only at failed
      split at failed
      next whole =>
        dsimp only
        exact .inl (by rw [if_pos whole])
      next plain =>
        refine .inr ⟨number, positional, r, found, standing, failed, ?_⟩
        dsimp only
        rw [if_neg plain]
        rfl

/-- A value that cannot be set is not recorded as changed, and changes no row but that of its address. There the way
to its node may have been entered, as far as it leads: an association to no row becomes a row, and a missing property
null. The row is as it was only if there was none of these on the way. -/
theorem failed_set_enters (failed : (v.setValue value row path).2 = .error cause) :
    (v.setValue value row path).1 = v ∨ ∃ number positional r steps data,
      v.resolve row path = .ok (number, positional) ∧ v.rows[number]? = some r ∧
        Path.read (Path.node positional) = .ok steps ∧
        (v.setValue value row path).1 = { v with rows := v.rows.set number { r with data := data } } ∧
        Row.Enters steps r.data data := by
  obtain same | ⟨number, positional, r, found, standing, refused, result⟩ := View.setValue_eq_error failed
  · exact .inl same
  · rw [ViewRow.assign_of_error refused] at result
    rw [ViewRow.assign_outcome] at refused
    obtain same | ⟨steps, parsed, enters⟩ := Row.enters_alterNode refused
    · obtain ⟨bound, rfl⟩ := List.getElem?_eq_some_iff.mp standing
      rw [same, List.set_getElem_self] at result
      exact .inl result
    · exact .inr ⟨number, positional, r, steps, _, found, standing, parsed, result, enters⟩

end

namespace Basket

def tagWay : List PathStep :=
  [⟨"items", some 1⟩, ⟨"maker", none⟩, ⟨"tags", some 0⟩]

def lacksMaker (v : View) : Bool :=
  match v.value 0 "items[1].maker" with
  | .ok .null => true
  | _ => false

set_option maxRecDepth 100000 in
/-- The second item has no maker. It is given an empty one, though no name can be set in a tag of it. -/
theorem failed_set_leaves_maker : ∃ compiled r data, outline.view? = some compiled ∧
    ((loaded compiled).setValue (.text "x") 0 "items[1].maker.tags[0].name").2 =
      .error (.invalidPath "items[1].maker.tags[0]" .notACollection) ∧
    (loaded compiled).rows[0]? = some r ∧ data ≠ r.data ∧
    ((loaded compiled).setValue (.text "x") 0 "items[1].maker.tags[0].name").1 =
      { loaded compiled with rows := (loaded compiled).rows.set 0 { r with data := data } } := by
  have checked : (outline.view?.map fun compiled =>
      decide (((loaded compiled).setValue (.text "x") 0 "items[1].maker.tags[0].name").2 =
        .error (.invalidPath "items[1].maker.tags[0]" .notACollection)) &&
      lacksMaker (loaded compiled) &&
      !lacksMaker ((loaded compiled).setValue (.text "x") 0 "items[1].maker.tags[0].name").1 &&
      decide ((loaded compiled).resolve 0 "items[1].maker.tags[0].name" = .ok (0, "items[1].maker.tags[0].name")) &&
      decide (Path.read (Path.node "items[1].maker.tags[0].name") = .ok tagWay) &&
      (loaded compiled).rows[0]?.any (·.data.meetsNull tagWay)) = some true := by
    decide +kernel
  obtain ⟨compiled, found, checked⟩ := Option.map_eq_some_iff.mp checked
  simp only [Bool.and_eq_true, decide_eq_true_eq, Bool.not_eq_true'] at checked
  obtain ⟨⟨⟨⟨⟨failed, before⟩, after⟩, resolved⟩, way⟩, meets⟩ := checked
  obtain same | ⟨number, positional, r, steps, data, again, standing, parsed, result, enters⟩ :=
    failed_set_enters failed
  · rw [same, before] at after
    cases after
  · rw [resolved, Except.ok.injEq, Prod.mk.injEq] at again
    obtain ⟨rfl, rfl⟩ := again
    rw [way, Except.ok.injEq] at parsed
    rw [standing, Option.any_some, parsed] at meets
    exact ⟨compiled, r, data, found, failed, standing, enters.changed meets, result⟩

end Basket

end ViewEngine
