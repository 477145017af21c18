import ViewEngine.Proofs.Addressing.OnWay
import ViewEngine.Proofs.Addressing.Positions
import ViewEngine.Proofs.Propagation.Planned

namespace ViewEngine

open Value

/-- A row in which a value was put at a place, and nothing else was changed. -/
structure Row.PutsAt (place : Place) (value : Value) (before after : Row) : Prop where
  stands : (Value.row after).atPlace? place = some value
  onWay : ∀ above, above <+: place → above ≠ place →
    Entered ((Value.row before).atPlace? above) ((Value.row after).atPlace? above)
  aside : ∀ other, ¬ place.Overlaps other → (Value.row after).atPlace? other = (Value.row before).atPlace? other

namespace Row

variable {row : Row} {steps : List PathStep} {node property : String} {value : Value} {place : Place}

theorem putsAt_alterAlong (altered : (row.alterAlong (Keyed.insert property value ·) steps).2 = .ok ()) :
    PutsAt (Path.placeOf steps property) value row (row.alterAlong (Keyed.insert property value ·) steps).1 where
  stands := atPlace?_alterAlong altered
  onWay above leads below := by
    have onWay : above <+: steps.flatMap PathStep.place := by
      rw [Path.placeOf, List.prefix_concat_iff] at leads
      exact leads.resolve_left below
    obtain ⟨rest, same⟩ := leads
    have within : rest ≠ [] := by
      rintro rfl
      exact below (by simpa using same)
    refine (touched_alterAlong _ onWay).entered_of_within within (?_ : _ = some value)
    rw [← atPlace?_append, same]
    exact atPlace?_alterAlong altered
  aside other apart := by
    refine atPlace?_alterAlong_aside (fun leads => apart (.inr ?_)) (.inr fun within => apart (.inl within))
    exact leads.trans (List.prefix_append ..)

theorem putsAt_alterNode (altered : (row.alterNode node (Keyed.insert property value ·)).2 = .ok ()) :
    ∃ place, Path.place? node property = some place ∧
      PutsAt place value row (row.alterNode node (Keyed.insert property value ·)).1 := by
  rcases alterNode_cases row node (Keyed.insert property value ·) with ⟨steps, placed, same, done⟩ | ⟨-, failed⟩
  · exact ⟨_, placed property, same ▸ putsAt_alterAlong (done altered)⟩
  · exact absurd altered failed

end Row

namespace View

variable {v : View} {row : Nat} {path : String} {value : Value}

theorem setValue_eq_ok (set : (v.setValue value row path).2 = .ok ()) : ∃ number positional r,
    v.resolve row path = .ok (number, positional) ∧ v.rows[number]? = some r ∧
      (Path.property positional).toList.contains '[' = false ∧
      (r.assign (Path.node positional) (Path.property positional) value).2 = .ok () ∧
      (v.setValue value row path).1 = { v with
        rows := v.rows.set number (r.assign (Path.node positional) (Path.property positional) value).1 } := by
  unfold setValue at set ⊢
  split at set
  · contradiction
  next number positional found =>
    split at set
    · contradiction
    next r standing =>
      simp only at set
      split at set
      · contradiction
      next plain =>
        refine ⟨number, positional, r, found, standing, Bool.eq_false_iff.mpr plain, set, ?_⟩
        dsimp only
        rw [if_neg plain]
        rfl

end View

theorem ViewRow.assign_of_ok {r : ViewRow} {node property : String} {value : Value}
    (assigned : (r.assign node property value).2 = .ok ()) : (r.assign node property value).1 =
      ⟨(r.data.alterNode node (Keyed.insert property value ·)).1, r.changed.insert (Path.child node property)⟩ := by
  unfold assign at assigned ⊢
  split
  next altered => rw [altered]
  next failed =>
    rw [failed] at assigned
    contradiction

section

variable {v : View} {row : Nat} {path : String} {value : Value}

/-- A value that was set is read again at its address, and at the positional form of it, which is all that is recorded
as changed. No other value of any row has changed, but that an association to no row on the way becomes a row. -/
theorem set_value_is_read (set : (v.setValue value row path).2 = .ok ()) :
    ∃ number positional place before after,
      v.resolve row path = .ok (number, positional) ∧ v.Positional row path number positional ∧
      (v.setValue value row path).1.value row path = .ok value ∧
      (v.setValue value row path).1.value number positional = .ok value ∧
      v.rows[number]? = some before ∧
      (v.setValue value row path).1 = { v with rows := v.rows.set number after } ∧
      (∀ other, other ∈ after.changed ↔ other = positional ∨ other ∈ before.changed) ∧
      Path.place? (Path.node positional) (Path.property positional) = some place ∧
      before.data.PutsAt place value after.data := by
  obtain ⟨number, positional, r, found, standing, plain, assigned, result⟩ := View.setValue_eq_ok set
  have form := View.positional_of_resolve found
  obtain ⟨place, placed, puts⟩ := Row.putsAt_alterNode (ViewRow.assign_outcome ▸ assigned)
  obtain ⟨others, parsed, closed⟩ := View.read_positional form placed
  obtain ⟨slot, named, holds⟩ := View.holds_setValue set
  have sameSlots {at' : Nat} {address : String} :
      (v.setValue value row path).1.slot? at' address = v.slot? at' address :=
    View.slot?_congr View.setValue_compiled View.setValue_length
  have slots := View.slot?_of_resolve found (by simpa using plain) placed
  have same : slot = ⟨number, Path.node positional, Path.property positional, place⟩ :=
    Option.some.inj (named.symm.trans slots)
  have resolved : v.resolve number positional = .ok (number, positional) := View.resolve_positional parsed closed
  have again := View.slot?_of_resolve resolved (by simpa using plain) placed
  refine ⟨number, positional, place, r, _, found, form, ?_, ?_, standing, result, ?_, placed, ?_⟩
  · exact View.value_of_holds (sameSlots.trans named) holds
  · exact View.value_of_holds (sameSlots.trans again) (same ▸ holds)
  · rw [ViewRow.assign_of_ok assigned, Path.child_node_property parsed]
    exact fun other => Names.mem_insert
  · rw [ViewRow.assign_of_ok assigned]
    exact puts

end

namespace Basket

open Outline (column association entity)

def outline : Outline where
  definitions := [
    entity "Basket" "basket" [column "id" "id" .bigInt true, association "items" "Item" "item" "id" "basket_id" true],
    entity "Item" "item" [column "id" "id" .bigInt true, column "basketId" "basket_id" .bigInt false,
      column "makerId" "maker_id" .bigInt false, association "maker" "Maker" "maker" "maker_id" "id" false],
    entity "Maker" "maker" [column "id" "id" .bigInt true, column "name" "name" .varchar false]]
  roots := ["Basket"]
  requests := [⟨"items.maker", none⟩]

def loaded (compiled : CompiledView) : View :=
  .ofRows compiled [[("id", .int 1), ("items", .list [.row [("id", .int 10), ("maker", .null)],
    .row [("id", .int 11), ("maker", .null)]]), ("rootKey", .int 1)]]

set_option maxRecDepth 100000 in
/-- The number of the row picks the second item, whose maker becomes a row. -/
theorem maker_of_second_item : ∃ compiled after, outline.view? = some compiled ∧
    ((loaded compiled).setValue (.text "x") 1 "items.maker.name").2 = .ok () ∧
    ((loaded compiled).setValue (.text "x") 1 "items.maker.name").1 =
      { loaded compiled with rows := (loaded compiled).rows.set 0 after } ∧
    ((loaded compiled).setValue (.text "x") 1 "items.maker.name").1.value 1 "items.maker.name" = .ok (.text "x") ∧
    ((loaded compiled).setValue (.text "x") 1 "items.maker.name").1.value 0 "items[1].maker.name" =
      .ok (.text "x") ∧ ∀ other, other ∈ after.changed ↔ other = "items[1].maker.name" := by
  have checked : (outline.view?.map fun compiled =>
      ((loaded compiled).setValue (.text "x") 1 "items.maker.name").2.isOk &&
      decide ((loaded compiled).resolve 1 "items.maker.name" = .ok (0, "items[1].maker.name"))) = some true := by
    decide +kernel
  obtain ⟨compiled, found, checked⟩ := Option.map_eq_some_iff.mp checked
  simp only [Bool.and_eq_true, decide_eq_true_eq] at checked
  obtain ⟨set, resolved⟩ := checked
  have set := eq_ok_of_isOk set
  obtain ⟨number, positional, place, before, after, again, -, reads, positionally, standing, result, records, -⟩ :=
    set_value_is_read set
  cases Except.ok.inj (resolved.symm.trans again)
  cases standing
  refine ⟨compiled, after, found, set, result, reads, positionally, fun other => ?_⟩
  simpa using records other

end Basket

end ViewEngine
