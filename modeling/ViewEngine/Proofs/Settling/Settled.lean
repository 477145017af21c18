import ViewEngine.Proofs.Assembly.Slots
import ViewEngine.Proofs.WriteBack.Drafts
import ViewEngine.Proofs.Writing.Alike
import ViewEngine.View.Flush

namespace ViewEngine

open Sql Planning

namespace Row

variable {row : Row} {steps : List PathStep} {node property : String} {value : Value}

theorem isAscending_alterNode (ascending : Keyed.IsAscending row) :
    Keyed.IsAscending (row.alterNode node (Keyed.insert property value ·)).1 := by
  unfold alterNode
  split
  · exact ascending.insert property value
  · split
    next steps _ =>
      cases steps with
      | nil => exact ascending.insert property value
      | cons step rest => exact ascending.insert step.property _
    next => exact ascending

end Row

namespace View

variable {v : View} {settings : ViewSettings} {context : Context}

/-- The properties of each row are in their order. -/
def IsOrdered (v : View) : Prop :=
  ∀ r ∈ v.rows, Keyed.IsAscending r.data

structure IsSettled (v : View) : Prop where
  stored : ∀ r ∈ v.rows, r.isNew = false
  unchanged : ∀ r ∈ v.rows, r.changed = []
  removed : v.removed = []

theorem IsSettled.isDirty (settled : v.IsSettled) : v.isDirty = false := by
  rw [View.isDirty, settled.removed, List.isEmpty_nil, Bool.not_true, Bool.false_or, List.any_eq_false]
  intro r member
  simp [settled.stored r member, settled.unchanged r member]

theorem propagateAll_of_unchanged {rows : List ViewRow} (strict : Bool) (plan : JoinPlan)
    (unchanged : ∀ r ∈ rows, r.changed = []) : ViewRow.propagateAll strict plan rows = (rows, .ok ()) := by
  induction rows with
  | nil => rfl
  | cons r rest ih =>
      obtain ⟨first, later⟩ := List.forall_mem_cons.mp unchanged
      unfold ViewRow.propagateAll
      simp only [ViewRow.propagate_of_unchanged first, ite_self, ih later]
      rfl

/-- Nothing is planned for a settled view, which stays as it is. -/
theorem IsSettled.plan_eq (settled : v.IsSettled) (settings : ViewSettings) (context : Context) :
    v.plan settings context = (v, .ok ⟨[], context.writeTime, []⟩) := by
  have nothing : ∀ item ∈ v.rows.zipIdx, rowWrites v.compiled settings.strictWriteBack context item.2 item.1 =
      .ok ([] : List Write) := by
    intro item member
    have inside := List.fst_mem_of_mem_zipIdx member
    exact ViewRow.rowWrites_of_unchanged (settled.stored _ inside) (settled.unchanged _ inside) ..
  have writes : v.writes settings.strictWriteBack context = .ok [] := by
    refine bind_eq_ok.mpr ⟨_, mapM_eq_ok nothing, bind_eq_ok.mpr ⟨[], ?_, ?_⟩⟩
    · rw [settled.removed]
      rfl
    · simp [pure, Except.pure]
  simp only [plan, propagateAll_of_unchanged _ _ settled.unchanged, writes]
  rfl

theorem isAscending_propagate {r : ViewRow} (ascending : Keyed.IsAscending r.data) (strict : Bool) (plan : JoinPlan) :
    Keyed.IsAscending (r.propagate strict plan).1.data := by
  refine @ViewRow.propagate_preserves r strict plan (fun r => Keyed.IsAscending r.data) ?_ ascending
  intro state node property value ascending _
  rw [ViewRow.assign_data]
  exact Row.isAscending_alterNode ascending

theorem IsOrdered.plan (ordered : v.IsOrdered) : (v.plan settings context).1.IsOrdered := by
  intro after member
  obtain ⟨r, inside, rfl | rfl⟩ := exists_of_mem_left (v.plan_rows settings context).flip member
  · exact ordered after inside
  · exact isAscending_propagate (ordered r inside) ..

theorem isAscending_reopen {rows : List ViewRow} (ascending : ∀ r ∈ rows, Keyed.IsAscending r.data)
    (now : Timestamp) (reopened : List Reopening) :
    ∀ r ∈ reopened.foldl (reopen now) rows, Keyed.IsAscending r.data := by
  induction reopened generalizing rows with
  | nil => exact ascending
  | cons first rest ih =>
      refine ih fun r member => ?_
      obtain ⟨row, there⟩ := List.getElem?_of_mem member
      rw [reopen, List.getElem?_modify] at there
      obtain ⟨before, standing, rfl⟩ := Option.map_eq_some_iff.mp there
      have ascending := ascending before (List.mem_of_getElem? standing)
      split
      · exact Row.isAscending_alterNode ascending
      · exact ascending

theorem IsOrdered.reconcile (ordered : v.IsOrdered) (now : Timestamp) (reopened : List Reopening) :
    (v.reconcile now reopened).IsSettled where
  stored r member := by
    obtain ⟨before, inside, rfl⟩ := List.mem_map.mp member
    have erased : Keyed.get? (Keyed.erase newRowMark before.data) newRowMark = none :=
      (isAscending_reopen ordered now reopened before inside).get?_erase_self
    simp only [ViewRow.isNew, ViewRow.settled, Keyed.contains, erased, Option.isSome_none]
  unchanged r member := by
    obtain ⟨before, -, rfl⟩ := List.mem_map.mp member
    rfl
  removed := rfl

end View

/-- A flush that succeeds has planned what it has carried out, and settles the view as of then. -/
theorem Executor.flush_eq_ok {σ : Type} {x : Executor σ} {settings : ViewSettings} {context : Context}
    {v settled : View} {state after : σ} {affected : UInt64}
    (flushed : x.flush settings context v state = (.ok affected, settled, after)) :
    ∃ plan, (v.plan settings context).2 = .ok plan ∧
      settled = (v.plan settings context).1.reconcile context.writeTime plan.reopened := by
  unfold flush at flushed
  generalize planned : v.plan settings context = outcome at flushed
  obtain ⟨w, error | plan⟩ := outcome
  · cases flushed
  · dsimp only at flushed
    generalize x.runStatements w.compiled.dialect plan.statements state = ran at flushed
    obtain ⟨error | count, last⟩ := ran
    · cases flushed
    · cases flushed
      obtain ⟨writes, -, rfl⟩ := View.plan_writes (congrArg Prod.snd planned)
      exact ⟨_, rfl, rfl⟩

end ViewEngine
