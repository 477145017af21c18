import ViewEngine.Proofs.Propagation.Planned
import ViewEngine.Proofs.Writing.Nodes

namespace ViewEngine

open Planning BoundParameter

/-- The keys among the parameters are those that a row of an entity holds, in the forms of their columns. -/
def Row.IsNamed (e : Entity) (data : Row) (parameters : List BoundParameter) : Prop :=
  ∃ keys, parameters.filter (·.isKey) = keyParameters keys ∧ keys.map Prod.fst = e.storageKeys ∧
    ∀ key ∈ keys, data.get? key.1.property = some key.2

def Slot.ofRoot (row : Nat) (property : String) : Slot :=
  ⟨row, "", property, [.property property]⟩

/-- No value is set at a place that overlaps a slot. -/
def View.LeftAlone (v : View) (edits : List Edit) (slot : Slot) : Prop :=
  ∀ edit ∈ edits, ∀ changed, v.slot? edit.row edit.path = some changed → ¬ slot.Overlaps changed

/-- No key is taken over into a place that overlaps a slot. -/
def View.TakesNothingOver (v : View) (slot : Slot) : Prop :=
  ∀ r, v.rows[slot.row]? = some r → ∀ place ∈ r.receivers v.compiled.joinPlan, ¬ slot.place.Overlaps place

namespace View

variable {v : View} {strict : Bool} {context : Context} {row : Nat} {property : String} {value : Value}
  {parameters : List BoundParameter} {edits : List Edit} {r : ViewRow}

theorem holds_ofRoot (standing : v.rows[row]? = some r) :
    v.Holds (.ofRoot row property) value ↔ r.data.get? property = some value := by
  have place : (Value.row r.data).atPlace? [.property property] = r.data.get? property := by
    simp only [Value.atPlace?, Option.bind_fun_some]
  constructor
  · rintro ⟨other, again, stands⟩
    cases standing.symm.trans again
    exact place.symm.trans stands
  · intro held
    exact ⟨r, standing, place.trans held⟩

/-- A root row is written by the keys it holds. -/
theorem Binds.named (binds : v.Binds strict context parameters (.node row "")) :
    ∃ r, v.rows[row]? = some r ∧ r.data.IsNamed (v.compiled.rootOf r.data) parameters := by
  obtain ⟨r, writes, standing, -, planned, w, isWrite, rfl⟩ := binds
  refine ⟨r, standing, ?_⟩
  cases nodeWrites_plans planned with
  | unresolved | absent | unchanged => contradiction
  | stored entity there _ keyed stores =>
      cases entity
      cases there
      obtain ⟨attributes, held⟩ := keyValues_held keyed
      exact ⟨_, stores.binds w isWrite, attributes, held⟩

theorem Binds.named_removed (binds : v.Binds strict context parameters (.removed row)) :
    ∃ data, v.removed[row]? = some data ∧ data.IsNamed (v.compiled.rootOf data) parameters := by
  obtain ⟨data, w, standing, planned, rfl⟩ := binds
  obtain ⟨keys, keyed, removes⟩ := removalWrite_removes planned
  obtain ⟨attributes, held⟩ := keyValues_held keyed
  exact ⟨data, standing, keys, removes.binds, attributes, held⟩

theorem removeRow_compiled : (v.removeRow row).1.compiled = v.compiled := by
  unfold removeRow
  split <;> rfl

theorem removeRow_eq {data : Row} (removed : (v.removeRow row).2 = .ok data) :
    ∃ r, v.rows[row]? = some r ∧ r.data = data ∧
      (v.removeRow row).1.removed = if r.isNew then v.removed else v.removed ++ [data] := by
  unfold removeRow at removed ⊢
  split at removed
  · contradiction
  next r standing =>
    cases removed
    exact ⟨r, standing, rfl, rfl⟩

end View

/-- A root row is written and taken away by the keys that it holds, and holds each key that it was read with
unless that is set or taken over. -/
theorem writes_name_row {v : View} {edits : List Edit} {row : Nat} {loaded : ViewRow}
    {settings : ViewSettings} {context : Context} (standing : v.rows[row]? = some loaded) :
    (∀ plan, ((v.edited edits).plan settings context).2 = .ok plan →
      ∃ w r, ((v.edited edits).plan settings context).1 = w ∧ w.rows[row]? = some r ∧
        (∀ s ∈ plan.statements, ∀ parameters ∈ s.batch, ∃ origin,
          w.Binds settings.strictWriteBack context parameters origin) ∧
        (∀ parameters, w.Binds settings.strictWriteBack context parameters (.node row "") →
          r.data.IsNamed (w.compiled.rootOf r.data) parameters) ∧
        ∀ key value, loaded.data.get? key = some value → v.LeftAlone edits (.ofRoot row key) →
          (v.edited edits).TakesNothingOver (.ofRoot row key) → r.data.get? key = some value) ∧
    ∀ data, ((v.edited edits).removeRow row).2 = .ok data →
      ∀ plan, (((v.edited edits).removeRow row).1.plan settings context).2 = .ok plan →
      ∃ w, (((v.edited edits).removeRow row).1.plan settings context).1 = w ∧
        (∀ s ∈ plan.statements, ∀ parameters ∈ s.batch, ∃ origin,
          w.Binds settings.strictWriteBack context parameters origin) ∧
        (∀ parameters, w.Binds settings.strictWriteBack context parameters
            (.removed (v.edited edits).removed.length) →
          data.IsNamed (w.compiled.rootOf data) parameters) ∧
        ∀ key value, loaded.data.get? key = some value → v.LeftAlone edits (.ofRoot row key) →
          data.get? key = some value := by
  have kept {key : String} {value : Value} (held : loaded.data.get? key = some value)
      (apart : v.LeftAlone edits (.ofRoot row key)) : (v.edited edits).Holds (.ofRoot row key) value :=
    View.holds_edited ((View.holds_ofRoot standing).mpr held) apart
  constructor
  · intro plan planned
    have present : row < ((v.edited edits).plan settings context).1.rows.length := by
      rw [View.plan_view, ViewRow.propagateAll_length, View.edited_length]
      exact (List.getElem?_eq_some_iff.mp standing).1
    have there := List.getElem?_eq_getElem present
    refine ⟨_, _, rfl, there, fun s member parameters bound => View.plan_binds planned member bound,
      fun parameters binds => ?_, fun key value held apart aside => ?_⟩
    · obtain ⟨r, again, named⟩ := binds.named
      cases there.symm.trans again
      exact named
    · exact (View.holds_ofRoot there).mp (View.holds_plan (kept held apart) aside)
  · intro data removed plan planned
    obtain ⟨r, found, rfl, afterwards⟩ := View.removeRow_eq removed
    refine ⟨_, rfl, fun s member parameters bound => View.plan_binds planned member bound,
      fun parameters binds => ?_, fun key value held apart => ?_⟩
    · obtain ⟨data, again, named⟩ := binds.named_removed
      rw [View.plan_view] at again named ⊢
      simp only [afterwards] at again
      split at again
      · simp at again
      · rw [List.getElem?_concat_length] at again
        cases again
        exact named
    · exact (View.holds_ofRoot found).mp (kept held apart)

namespace Sample

set_option maxRecDepth 100000 in
/-- A sample that is given another inner item is named by the id it was read with. -/
theorem sample_is_named : ∃ compiled loadedRow plan r, outline.view? = some compiled ∧
    (loaded compiled).rows[0]? = some loadedRow ∧
    (((loaded compiled).edited [⟨.int 5, 0, "innerId"⟩]).plan {} context).2 = .ok plan ∧
    plan.statements.length = 1 ∧
    (((loaded compiled).edited [⟨.int 5, 0, "innerId"⟩]).plan {} context).1.rows[0]? = some r ∧
    (∀ parameters, (((loaded compiled).edited [⟨.int 5, 0, "innerId"⟩]).plan {} context).1.Binds false context
      parameters (.node 0 "") → r.data.IsNamed (compiled.rootOf r.data) parameters) ∧
    r.data.get? "id" = some (.int 1) := by
  have checked : (outline.view?.map fun compiled =>
      (((loaded compiled).edited [⟨.int 5, 0, "innerId"⟩]).plan {} context).2.toOption.any
        (·.statements.length == 1) &&
      ((loaded compiled).slot? 0 "innerId").all (fun changed =>
        !decide ((Slot.ofRoot 0 "id").Overlaps changed)) &&
      (((loaded compiled).edited [⟨.int 5, 0, "innerId"⟩]).rows[0]?).all (fun r =>
        (r.receivers compiled.joinPlan).all fun place =>
          !decide ((Slot.ofRoot 0 "id").place.Overlaps place))) = some true := by
    decide +kernel
  obtain ⟨compiled, found, checked⟩ := Option.map_eq_some_iff.mp checked
  simp only [Bool.and_eq_true, Option.any_eq_true] at checked
  obtain ⟨⟨⟨plan, succeeded, single⟩, apart⟩, aside⟩ := checked
  have planned := eq_ok_of_toOption succeeded
  have apart : (loaded compiled).LeftAlone [⟨.int 5, 0, "innerId"⟩] (.ofRoot 0 "id") := by
    intro edit member changed named overlaps
    cases List.mem_singleton.mp member
    simp [named, overlaps] at apart
  have aside : ((loaded compiled).edited [⟨.int 5, 0, "innerId"⟩]).TakesNothingOver (.ofRoot 0 "id") := by
    intro r standing place member overlaps
    rw [View.edited_compiled] at member
    simp only [Slot.ofRoot] at standing overlaps
    rw [standing, Option.all_some, List.all_eq_true] at aside
    simpa [Slot.ofRoot, overlaps] using aside place member
  obtain ⟨written, -⟩ := @writes_name_row (loaded compiled) [⟨.int 5, 0, "innerId"⟩] 0 _ {} context rfl
  obtain ⟨_, r, rfl, there, -, named, kept⟩ := written plan planned
  refine ⟨compiled, _, plan, r, found, rfl, planned, beq_iff_eq.mp single, there, ?_, kept "id" _ rfl apart aside⟩
  rw [View.plan_view, View.edited_compiled] at named ⊢
  exact named

set_option maxRecDepth 100000 in
/-- A sample whose id is set is written under the new id, though it was read with another one. -/
theorem edited_key_is_bound : ∃ compiled plan s, outline.view? = some compiled ∧
    (((loaded compiled).edited [⟨.int 99, 0, "id"⟩, ⟨.int 5, 0, "innerId"⟩]).plan {} context).2 = .ok plan ∧
    (loaded compiled).value 0 "id" = .ok (.int 1) ∧ plan.statements = [s] ∧ s.path = "" ∧
    s.statement.kind = .update ∧ ∃ parameters, s.batch = [parameters] ∧
      (parameters.filter (·.name == keyName "id")).map (·.value) = [.int 99] := by
  have checked : (outline.view?.map fun compiled =>
      ((loaded compiled).value 0 "id").toOption == some (.int 1) &&
      (((loaded compiled).edited [⟨.int 99, 0, "id"⟩, ⟨.int 5, 0, "innerId"⟩]).plan {} context).2.toOption.any
        fun plan => plan.statements.map (fun s => (s.path, s.statement.kind, s.batch.map fun parameters =>
          (parameters.filter (·.name == keyName "id")).map (·.value))) == [("", .update, [[.int 99]])]) =
        some true := by
    decide +kernel
  obtain ⟨compiled, found, checked⟩ := Option.map_eq_some_iff.mp checked
  simp only [Bool.and_eq_true, Option.any_eq_true, beq_iff_eq] at checked
  obtain ⟨read, plan, succeeded, form⟩ := checked
  obtain ⟨s, single, form⟩ := List.map_eq_singleton_iff.mp form
  obtain ⟨path, form⟩ := Prod.mk.injEq .. ▸ form
  obtain ⟨kind, form⟩ := Prod.mk.injEq .. ▸ form
  obtain ⟨parameters, batch, bound⟩ := List.map_eq_singleton_iff.mp form
  exact ⟨compiled, plan, s, found, eq_ok_of_toOption succeeded, eq_ok_of_toOption read, single, path, kind,
    parameters, batch, bound⟩

end Sample

end ViewEngine
