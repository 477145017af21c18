import ViewEngine.Proofs.Writing.Nodes
import ViewEngine.Proofs.Writing.Sharing

namespace ViewEngine

open Sql Planning

/-- Parameters that are bound at two times: they are the same, or are bound to these times. -/
def BoundParameter.DiffersInTime (now later : Timestamp) (p other : BoundParameter) : Prop :=
  other = p ∨ ∃ name type, p = .of name (.timestamp now) type ∧ other = .of name (.timestamp later) type

/-- Writes that are planned at two times and are otherwise the same. -/
def Write.DiffersInTime (now later : Timestamp) (w other : Write) : Prop :=
  ∃ parameters, other = { w with parameters := parameters } ∧
    List.Forall₂ (BoundParameter.DiffersInTime now later) w.parameters parameters

/-- Statements that are planned at two times and are otherwise the same, run as often with as many parameters. -/
def PlannedStatement.DiffersInTime (now later : Timestamp) (s other : PlannedStatement) : Prop :=
  ∃ batch, other = { s with batch := batch } ∧
    List.Forall₂ (List.Forall₂ (BoundParameter.DiffersInTime now later)) s.batch batch

variable {now later : Timestamp}

theorem BoundParameter.differsInTime_self (parameters : List BoundParameter) :
    List.Forall₂ (BoundParameter.DiffersInTime now later) parameters parameters :=
  List.forall₂_same.mpr fun _ _ => .inl rfl

theorem Write.DiffersInTime.refl (w : Write) : w.DiffersInTime now later w :=
  ⟨_, rfl, BoundParameter.differsInTime_self _⟩

theorem Write.differsInTime_self (writes : List Write) : List.Forall₂ (DiffersInTime now later) writes writes :=
  List.forall₂_same.mpr fun w _ => .refl w

namespace PlannedStatement

variable {w other : Write} {statements others : List PlannedStatement}

theorem differsInTime_add (alike : w.DiffersInTime now later other)
    (before : List.Forall₂ (DiffersInTime now later) statements others) :
    List.Forall₂ (DiffersInTime now later) (add w statements) (add other others) := by
  obtain ⟨parameters, rfl, bound⟩ := alike
  induction before with
  | nil => exact .cons ⟨_, rfl, .cons bound .nil⟩ .nil
  | @cons first _ rest _ same below ih =>
      obtain ⟨batch, rfl, batched⟩ := same
      unfold add
      split
      next => exact .cons ⟨_, rfl, List.rel_append batched (.cons bound .nil)⟩ below
      next => exact .cons ⟨batch, rfl, batched⟩ ih

theorem differsInTime_ofWrites {writes further : List Write}
    (alike : List.Forall₂ (Write.DiffersInTime now later) writes further) :
    List.Forall₂ (DiffersInTime now later) (ofWrites writes) (ofWrites further) := by
  have folded {statements others : List PlannedStatement}
      (before : List.Forall₂ (DiffersInTime now later) statements others) :
      List.Forall₂ (DiffersInTime now later) (writes.foldl (fun statements w => add w statements) statements)
        (further.foldl (fun statements w => add w statements) others) := by
    induction alike generalizing statements others with
    | nil => exact before
    | cons first _ ih => exact ih (differsInTime_add first before)
  exact folded .nil

end PlannedStatement

namespace Planning

variable {v : CompiledView} {strict : Bool} {context next : Context} {row : Nat} {r : ViewRow} {node : String}
  {data : Row} {e : Entity} {columns : List Attribute} {keys : List (Attribute × Value)}

theorem closeWrite_differsInTime (e : Entity) (column path : String) (now later : Timestamp)
    (keys : List (Attribute × Value)) :
    (closeWrite e column path now keys).DiffersInTime now later (closeWrite e column path later keys) :=
  ⟨_, rfl, .cons (.inr ⟨_, _, rfl, rfl⟩) (BoundParameter.differsInTime_self _)⟩

theorem successorWrite_differsInTime (opening property path : String) (now later : Timestamp) :
    (successorWrite e opening property path row node now data columns keys).DiffersInTime now later
      (successorWrite e opening property path row node later data columns keys) :=
  ⟨_, rfl, List.rel_append (List.rel_append (BoundParameter.differsInTime_self _) (.cons (.inr ⟨_, _, rfl, rfl⟩) .nil))
    (BoundParameter.differsInTime_self _)⟩

theorem versionWrites_alike {version : VersionColumns} {path : String} (now later : Timestamp) :
    Correspond (List.Forall₂ (Write.DiffersInTime now later))
      (versionWrites e version now row node path data columns keys)
      (versionWrites e version later row node path data columns keys) := by
  unfold versionWrites
  split
  next opening column _ _ =>
    exact .ok (.cons (closeWrite_differsInTime e column path now later keys)
      (.cons (successorWrite_differsInTime opening version.opening.property path now later) .nil))
  next => exact .error _

theorem nodeWrites_alike (same : next.fastUpdate = context.fastUpdate) :
    Correspond (List.Forall₂ (Write.DiffersInTime context.writeTime next.writeTime))
      (nodeWrites v strict context row r node) (nodeWrites v strict next row r node) := by
  have unchanged (writes : List Write) :
      Correspond (List.Forall₂ (Write.DiffersInTime context.writeTime next.writeTime))
        (.ok writes : Except ViewError (List Write)) (.ok writes) :=
    .ok (Write.differsInTime_self writes)
  unfold nodeWrites
  dsimp only
  generalize (if (Path.withoutPositions node).isEmpty then none
    else v.joinPlan.atPath? (Path.withoutPositions node)) = link
  rw [same]
  split
  next => exact .bind_right fun _ => unchanged []
  next =>
    refine .bind_right fun found => ?_
    split
    next => exact unchanged []
    next data =>
      refine .bind_right fun changed => ?_
      split
      next => exact unchanged []
      next =>
        refine .bind_right fun keys => ?_
        split
        next => exact versionWrites_alike ..
        next => exact unchanged _

theorem storedValues_alike (e : Entity) (now later : Timestamp) (given : List (Attribute × Value)) :
    List.Forall₂ (fun value other => other.1 = value.1 ∧ BoundParameter.DiffersInTime now later
      (valueParameter value.1 value.2) (valueParameter other.1 other.2))
      (storedValues e now given) (storedValues e later given) := by
  refine List.rel_append (List.forall₂_same.mpr fun _ _ => ⟨rfl, .inl rfl⟩) ?_
  rw [List.forall₂_map_left_iff, List.forall₂_map_right_iff]
  exact List.forall₂_same.mpr fun version _ => ⟨rfl, .inr ⟨_, _, rfl, rfl⟩⟩

theorem insertWrite_differsInTime {values others : List (Attribute × Value)}
    (alike : List.Forall₂ (fun value other => other.1 = value.1 ∧ BoundParameter.DiffersInTime now later
      (valueParameter value.1 value.2) (valueParameter other.1 other.2)) values others) :
    (insertWrite e row values).DiffersInTime now later (insertWrite e row others) := by
  have same : others.map Prod.fst = values.map Prod.fst := by
    induction alike with
    | nil => rfl
    | cons first _ ih => exact congrArg₂ List.cons first.1 ih
  refine ⟨others.map fun given => valueParameter given.1 given.2, ?_, ?_⟩
  · simp only [insertWrite, same]
  · exact List.rel_map (fun _ _ each => each.2) alike

theorem insertWrites_alike : Correspond (List.Forall₂ (Write.DiffersInTime context.writeTime next.writeTime))
    (insertWrites v strict context row data) (insertWrites v strict next row data) := by
  unfold insertWrites
  dsimp only
  refine .bind_right fun given => ?_
  simp only [foldl_insertValue_eq]
  have alike := storedValues_alike (v.rootOf data) context.writeTime next.writeTime given
  have empty : (storedValues (v.rootOf data) next.writeTime given).isEmpty =
      (storedValues (v.rootOf data) context.writeTime given).isEmpty := by
    rw [Bool.eq_iff_iff, List.isEmpty_iff_length_eq_zero, List.isEmpty_iff_length_eq_zero, alike.length_eq]
  unfold storedValues at empty
  rw [empty]
  split
  next => exact .ok .nil
  next => exact .ok (.cons (insertWrite_differsInTime alike) .nil)

theorem removalWrite_alike : Correspond (Write.DiffersInTime context.writeTime next.writeTime)
    (removalWrite v context row data) (removalWrite v next row data) := by
  unfold removalWrite
  refine .bind_right fun keys => ?_
  split
  next => exact .ok ⟨_, rfl, .cons (.inr ⟨_, _, rfl, rfl⟩) (BoundParameter.differsInTime_self _)⟩
  next => exact .ok (.refl _)

theorem rowWrites_alike (same : next.fastUpdate = context.fastUpdate) :
    Correspond (List.Forall₂ (Write.DiffersInTime context.writeTime next.writeTime))
      (rowWrites v strict context row r) (rowWrites v strict next row r) := by
  unfold rowWrites
  split
  next => exact insertWrites_alike
  next => exact (Correspond.mapM fun node => nodeWrites_alike same).map fun _ _ each => List.rel_flatten each

end Planning

namespace View

variable {v : View} {strict : Bool} {settings : ViewSettings} {context next : Context}

theorem writes_alike (same : next.fastUpdate = context.fastUpdate) :
    Correspond (List.Forall₂ (Write.DiffersInTime context.writeTime next.writeTime))
      (v.writes strict context) (v.writes strict next) :=
  (Correspond.mapM fun (_, _) => rowWrites_alike same).bind fun _ _ stored =>
    (Correspond.mapM fun (_, _) => removalWrite_alike).bind fun _ _ removals =>
      .ok (List.rel_append (List.rel_flatten stored) removals)

/-- The same statements are planned at any time, with the same bound but for the times of writing, or planning fails
for the same reason. -/
theorem plan_alike (same : next.fastUpdate = context.fastUpdate) :
    Correspond (fun plan other => List.Forall₂ (PlannedStatement.DiffersInTime context.writeTime next.writeTime)
      plan.statements other.statements) (v.plan settings context).2 (v.plan settings next).2 := by
  dsimp only [plan]
  generalize ViewRow.propagateAll settings.strictWriteBack v.compiled.joinPlan v.rows = propagated
  obtain ⟨rows, cause | _⟩ := propagated
  · exact .error cause
  · exact (writes_alike same).map fun _ _ alike => PlannedStatement.differsInTime_ofWrites alike

end View

end ViewEngine
