import ViewEngine.Proofs.Settling.Rewritten
import ViewEngine.Proofs.Timestamp.Reading
import ViewEngine.Proofs.Writing.Clock
import ViewEngine.Proofs.Writing.Keys

/-!
Between which times versions last. A version is named by the start that its row holds, and ended in the second in
which that is written. Whether the one is later than the other is not asked.
-/

namespace ViewEngine

open Sql Planning BoundParameter Compile

/-- The statement ends versions. -/
def Sql.Statement.Closes (s : Statement) : Prop :=
  ∃ column, (column, nowPlaceholder) ∈ s.assignments

/-- The statement makes new rows of old ones. -/
def Sql.Statement.Copies (s : Statement) : Prop :=
  s.source.isSome = true

def Write.Rewrites (w : Write) : Prop :=
  w.statement.Closes ∨ w.statement.Copies ∨ w.batch = some removalKey

/-- The parameters are the time, and as the start of a version the value that a row holds. -/
def Row.Dates (e : Entity) (data : Row) (now : Timestamp) (parameters : List BoundParameter)
    (version : VersionColumns) (value : Value) : Prop :=
  e.version = some version ∧ data.get? version.opening.property = some value ∧
    ∃ columns ids, ids.map Prod.fst = e.identityKeys ∧
      parameters = successorParameters columns data now (ids ++ [(version.opening, value)])

namespace Planning

variable {v : CompiledView} {context : Context} {row : Nat} {node path : String} {e : Entity} {data : Row}
  {columns : List Attribute} {keys : List (Attribute × Value)} {writes : List Write} {w : Write} {now : Timestamp}

theorem updateWrite_not_rewrites : ¬ (updateWrite e path data columns keys).Rewrites := by
  rintro (⟨column, assigned⟩ | copies | key)
  · rw [updateWrite_statement] at assigned
    obtain ⟨a, -, same⟩ := List.mem_map.mp assigned
    injection congrArg Prod.snd same with name
    exact valueName_ne_nowName name
  · rw [updateWrite_statement] at copies
    contradiction
  · simp [updateWrite, removalKey] at key

theorem insertWrite_not_rewrites {values : List (Attribute × Value)} : ¬ (insertWrite e row values).Rewrites := by
  rintro (⟨column, assigned⟩ | copies | key)
  · contradiction
  · contradiction
  · simp [insertWrite, removalKey] at key

section Dated

variable {version : VersionColumns} (keyed : keyValues e data path row = .ok keys) (dated : e.version = some version)
include keyed dated

theorem closeWrite_dates (column place : String) :
    ∃ value, data.Dates e now (closeWrite e column place now keys).parameters version value := by
  obtain ⟨ids, value, rfl, identity, held⟩ := keyValues_dated keyed dated
  exact ⟨value, dated, held, [], ids, identity, congrArg Prod.snd (closing_eq e column now _)⟩

theorem successorWrite_dates (opening property place : String) : ∃ value, data.Dates e now
    (successorWrite e opening property place row node now data columns keys).parameters version value := by
  obtain ⟨ids, value, rfl, identity, held⟩ := keyValues_dated keyed dated
  exact ⟨value, dated, held, columns, ids, identity, rfl⟩

end Dated

theorem StoresNode.dates (stores : StoresNode context row node e data columns keys writes) (member : w ∈ writes)
    (keyed : keyValues e data path row = .ok keys) (rewrites : w.Rewrites) :
    (∃ version value, data.Dates e context.writeTime w.parameters version value) ∧ w.batch = none := by
  cases stores with
  | update =>
      cases List.mem_singleton.mp member
      exact absurd rewrites updateWrite_not_rewrites
  | version dated =>
      rcases member with _ | ⟨_, _ | ⟨_, ⟨⟩⟩⟩
      · exact ⟨⟨_, closeWrite_dates keyed dated ..⟩, rfl⟩
      · exact ⟨⟨_, successorWrite_dates keyed dated ..⟩, rfl⟩

theorem Removes.dates (removes : Removes now e keys w) (keyed : keyValues e data path row = .ok keys)
    (rewrites : w.Rewrites) :
    (∃ version value, data.Dates e now w.parameters version value) ∧ w.batch = some removalKey := by
  cases removes with
  | @close column closes =>
      obtain ⟨version, dated, -⟩ := Option.bind_eq_some_iff.mp closes
      exact ⟨⟨version, closeWrite_dates keyed dated column ""⟩, rfl⟩
  | delete =>
      rcases rewrites with ⟨column, assigned⟩ | copies | key
      · rw [pinned_eq] at assigned
        contradiction
      · rw [pinned_eq] at copies
        contradiction
      · simp [removalKey] at key

end Planning

namespace View

variable {v : View} {strict : Bool} {context : Context} {w : Write} {origin : WriteOrigin}

/-- A planned write binds the time, and as the start of a version the value that its row or node holds. -/
def Dates (v : View) (strict : Bool) (context : Context) (parameters : List BoundParameter) (origin : WriteOrigin)
    (version : VersionColumns) (value : Value) : Prop :=
  ∃ w e data, v.Plans strict context w origin ∧ w.parameters = parameters ∧ v.HasSource e data origin ∧
    data.Dates e context.writeTime parameters version value

theorem Plans.dates (plans : v.Plans strict context w origin) (rewrites : w.Rewrites) :
    (∃ version value, v.Dates strict context w.parameters origin version value) ∧
      (w.batch = none ∨ w.batch = some removalKey) := by
  have planned := plans
  cases origin with
  | node row node =>
      obtain ⟨r, writes, there, -, -, found, member⟩ := plans
      cases nodeWrites_plans found with
      | unresolved | absent | unchanged => contradiction
      | stored entity standing _ keyed stores =>
          obtain ⟨⟨version, value, dates⟩, alone⟩ := stores.dates member keyed rewrites
          exact ⟨⟨version, value, w, _, _, planned, rfl, ⟨r, there, standing, entity⟩, dates⟩, .inl alone⟩
  | added row =>
      obtain ⟨r, writes, -, -, found, member⟩ := plans
      cases insertWrites_plans found with
      | nothing => contradiction
      | stored =>
          cases List.mem_singleton.mp member
          exact absurd rewrites insertWrite_not_rewrites
  | removed row =>
      obtain ⟨data, there, found⟩ := plans
      obtain ⟨keys, keyed, removes⟩ := removalWrite_removes found
      obtain ⟨⟨version, value, dates⟩, shared⟩ := removes.dates keyed rewrites
      exact ⟨⟨version, value, w, _, data, planned, rfl, ⟨there, rfl⟩, dates⟩, .inr shared⟩

theorem dates_of_rewrites {settings : ViewSettings} {plan : WritePlan} (planned : (v.plan settings context).2 = .ok plan)
    {s : PlannedStatement} (member : s ∈ plan.statements) (rewrites : s.statement.Closes ∨ s.statement.Copies)
    {parameters : List BoundParameter} (bound : parameters ∈ s.batch) : ∃ origin version value,
      (v.plan settings context).1.Dates settings.strictWriteBack context parameters origin version value := by
  obtain ⟨first, source, before, statement, -, shared⟩ := plan_stands planned member
  obtain ⟨w, origin, plans, rfl, shares⟩ := shared parameters bound
  rw [statement] at rewrites
  have rewrites : first.Rewrites := rewrites.imp_right .inl
  refine ⟨origin, (plans.dates ?_).1⟩
  rcases shares with rfl | ⟨shared, same⟩
  · exact rewrites
  · have alone := (before.dates rewrites).2
    rw [← same] at alone
    exact .inr (.inr (alone.resolve_left (Option.isSome_iff_ne_none.mp shared)))

/-- A node of a settled view is written again, or its row is taken away, after columns have been set that can be
written. -/
inductive Continues (settled : View) (settings : ViewSettings) (context : Context) (row : Nat) (node : String) :
    View → WriteOrigin → Prop
  | rewritten {edits : List Edit} {slot : Slot}
      (columns : settled.SetsColumns ((settled.edited edits).plan settings context).1 edits)
      (set : ∃ edit ∈ edits, settled.slot? edit.row edit.path = some slot) (sameRow : slot.row = row)
      (sameNode : Path.nodePlace? slot.node = Path.nodePlace? node) : Continues settled settings context row node
        ((settled.edited edits).plan settings context).1 (.node slot.row slot.node)
  | removed {edits : List Edit} {data : Row} {number : Nat}
      (columns : settled.SetsColumns (settled.edited edits) edits) (root : node = "")
      (removed : ((settled.edited edits).removeRow row).2 = .ok data) : Continues settled settings context row node
        (((settled.edited edits).removeRow row).1.plan settings context).1 (.removed number)

section Rounds

variable {setting : Setting} {roots : List Entity} {settings again : ViewSettings} {next : Context} {plan : WritePlan}
  {settled later : View} {row : Nat} {node : String} {opened version : VersionColumns} {value : Value}
  {parameters : List BoundParameter}
  (opens : (v.plan settings context).1.Opens settings.strictWriteBack context row node opened)
  (planned : (v.plan settings context).2 = .ok plan) (named : setting.IsNamed roots)
  (unjoined : setting.VersionsUnjoined roots) (built : v.compiled.joinPlan.IsBuilt setting roots)
  (sameRoots : v.compiled.roots = roots)
include opens planned named unjoined built sameRoots

theorem Continues.start_eq
    (continues : ((v.plan settings context).1.reconcile context.writeTime plan.reopened).Continues again next row node
      later origin) (dates : later.Dates again.strictWriteBack next parameters origin version value)
    (sameOpening : version.opening.property = opened.opening.property) : value = .timestamp context.writeTime := by
  obtain ⟨w, e, data, plans, -, source, dated, held, -⟩ := dates
  have unmarked {r : ViewRow} (stored : r.isNew = false) (same : r.data = data) :
      version.opening.property ≠ newRowMark := by
    intro marked
    rw [ViewRow.isNew, same, ← marked, Keyed.contains, held] at stored
    contradiction
  cases continues with
  | @rewritten edits slot columns set sameRow sameNode =>
      subst sameRow
      obtain ⟨r, standing, there, entity⟩ := source
      obtain ⟨r', -, standing', stored, -⟩ := plans
      cases standing.symm.trans standing'
      have compiled : ((((v.plan settings context).1.reconcile context.writeTime plan.reopened).edited edits).plan
          again next).1.compiled = v.compiled :=
        plan_compiled.trans ((edited_compiled _).trans plan_compiled)
      obtain ⟨fields, again, start⟩ := opens.holds_again planned named unjoined built sameRoots rfl columns set standing
        (compiled ▸ entity) dated sameNode sameOpening fun root => unmarked stored (by
          rw [root] at there
          exact Option.some.inj (Except.ok.inj there))
      cases there.symm.trans again
      exact Option.some.inj (held.symm.trans start)
  | @removed edits taken number columns root removed =>
      subst root
      obtain ⟨gone, entity⟩ := source
      obtain ⟨r, standing, rfl, list⟩ := removeRow_eq removed
      rw [plan_view, list, edited_removed] at gone
      obtain ⟨stored, rfl⟩ : r.isNew = false ∧ data = r.data := by
        generalize r.isNew = isNew at gone
        cases isNew with
        | true => contradiction
        | false => exact ⟨rfl, List.mem_singleton.mp (List.mem_of_getElem? gone)⟩
      have compiled : ((v.plan settings context).1.reconcile context.writeTime plan.reopened).compiled = v.compiled :=
        plan_compiled
      have root : v.compiled.entityAt? r.data "" = some e := by
        rw [plan_view, removeRow_compiled, edited_compiled, compiled] at entity
        exact congrArg some entity
      have holds : ((v.plan settings context).1.reconcile context.writeTime plan.reopened).Holds
          ⟨row, "", version.opening.property, [] ++ [.property version.opening.property]⟩
          (.timestamp context.writeTime) := by
        rw [sameOpening]
        exact opens.holds_reconcile planned named built sameRoots (rfl : Path.nodePlace? "" = some []) rfl root
          fun _ => sameOpening ▸ unmarked stored rfl
      have start := (holds_ofRoot standing).mp (columns.holds_edited standing (edited_compiled _) (compiled ▸ root) dated
        named (compiled ▸ built) (compiled ▸ sameRoots) rfl holds)
      exact Option.some.inj (held.symm.trans start)

end Rounds

end View

/-- Whatever ends a version, or starts the next one, names it by the start that its row or node holds, and binds the
write clock in whole seconds. The end is later than the start exactly if the clock has reached a later second; that is
not asked, as the same statements are planned at any time. A version that a flush has opened starts at the time of the
flush. So it does not end before, and it ends later unless it is ended within that second. -/
theorem versions_end_at_write_time {v : View} {settings : ViewSettings} {context : Context} {plan : WritePlan}
    (planned : (v.plan settings context).2 = .ok plan) :
    (∀ s ∈ plan.statements, s.statement.Closes ∨ s.statement.Copies → ∀ parameters ∈ s.batch,
      ∃ origin version value,
        (v.plan settings context).1.Dates settings.strictWriteBack context parameters origin version value ∧
        ∀ start, version.opening.columnType.coerce value = .timestamp start →
          (start < context.writeTime ↔ start.truncated < context.clock.truncated)) ∧
    (∀ next : Context, next.fastUpdate = context.fastUpdate → ∃ other, (v.plan settings next).2 = .ok other ∧
      List.Forall₂ (PlannedStatement.DiffersInTime context.writeTime next.writeTime) plan.statements
        other.statements) ∧
    ∀ (σ : Type) (x : Executor σ) registry compileSettings dialect pointInTime page t settled state after affected,
      Setting.IsNamed ⟨registry, pointInTime⟩ t.roots → Setting.VersionsUnjoined ⟨registry, pointInTime⟩ t.roots →
      compile registry compileSettings dialect pointInTime page t = .ok v.compiled →
      x.flush settings context v state = (.ok affected, settled, after) →
      ∀ row node opened, (v.plan settings context).1.Opens settings.strictWriteBack context row node opened →
      ∀ again next later origin, context.clock < next.clock → settled.Continues again next row node later origin →
      ∀ parameters version value, later.Dates again.strictWriteBack next parameters origin version value →
        version.opening.property = opened.opening.property →
        value = .timestamp context.writeTime ∧ context.writeTime ≤ next.writeTime ∧
          (context.writeTime < next.writeTime ↔ context.clock.truncated ≠ next.clock.truncated) := by
  refine ⟨fun s member rewrites parameters bound => ?_, fun next same => ?_, ?_⟩
  · obtain ⟨origin, version, value, dates⟩ := View.dates_of_rewrites planned member rewrites bound
    exact ⟨origin, version, value, dates, fun start _ => Timestamp.lt_truncated_iff⟩
  · exact (View.plan_alike same).exists_ok planned
  · intro σ x registry compileSettings dialect pointInTime page t settled state after affected named unjoined compiled
      flushed row node opened opens again next later origin increasing continues parameters version value dates same
    obtain ⟨first, firstPlanned, rfl⟩ := Executor.flush_eq_ok flushed
    obtain ⟨built, sameRoots, -⟩ := compile_made named.addressable compiled
    have ordered : context.writeTime ≤ next.writeTime := Timestamp.truncated_mono increasing.le
    exact ⟨continues.start_eq opens firstPlanned named unjoined built sameRoots dates same, ordered,
      ordered.lt_iff_ne⟩

namespace Revision

open Sample (context)
open Outline (column asks compiled_eq)

/-- The amount of a price changes twice, the first time in a version that has begun at a given time. -/
def price (start : Value) : Revision where
  definitions := [dated "Price" "price" [column "amount" "amount" .bigInt false]]
  roots := ["Price"]
  chains := [asks "Price" ["amount"], asks "Price" ["validFrom"]]
  row := [("amount", .int 5), ("id", .int 1), ("rootKey", .int 1), ("validFrom", start)]
  path := "amount"
  value := .int 6
  again := [⟨.int 7, 0, "amount"⟩]

def isNow : Expr → Bool
  | .parameter name => name == nowName
  | _ => false

def closes (s : Statement) : Bool :=
  s.assignments.any (isNow ·.2)

theorem closes_of_check {s : Statement} (checked : closes s = true) : s.Closes := by
  obtain ⟨⟨column, expr⟩, member, isNow⟩ := List.any_eq_true.mp checked
  unfold Revision.isNow at isNow
  split at isNow
  next name same =>
    cases beq_iff_eq.mp isNow
    cases same
    exact ⟨column, member⟩
  next => contradiction

def isContinued (f : Revision) (v : CompiledView) (settled : View) : Bool :=
  let planned := ((settled.edited f.again).plan {} later).1
  f.again.all (fun edit => (settled.slot? edit.row edit.path).all (canSet planned)) &&
    f.again.any (fun edit => (settled.slot? edit.row edit.path).any fun slot => slot.row == 0 && slot.node == "") &&
    opens ((f.start v).plan {} context).1 "" fun opened =>
      planned.rows[0]?.any fun r => !r.isNew && (r.changed.map Path.node).contains "" &&
        (nodeWrites planned.compiled false later 0 r "").toOption.any (·.any (closes ·.statement)) &&
        (planned.compiled.entityAt? r.data "").all fun e => e.version.all fun version =>
          version.opening.property == opened.opening.property

set_option maxRecDepth 100000 in
/-- The first version of the amount is ended when it changes, and the next one is named by that time a year later. -/
theorem price_ends_at_write_time : ∃ registry t v plan affected settled parameters version value,
    (price lastYear).compiled? = some (registry, t, v) ∧ (((price lastYear).start v).plan {} context).2 = .ok plan ∧
    (∃ s ∈ plan.statements, s.statement.Closes ∧ ∃ parameters ∈ s.batch, ∃ origin version value,
      (((price lastYear).start v).plan {} context).1.Dates false context parameters origin version value) ∧
    (∃ other, (((price lastYear).start v).plan {} later).2 = .ok other ∧
      List.Forall₂ (PlannedStatement.DiffersInTime context.writeTime later.writeTime) plan.statements
        other.statements) ∧
    obliging.flush {} context ((price lastYear).start v) () = (.ok affected, settled, ()) ∧
    ((settled.edited (price lastYear).again).plan {} later).1.Dates false later parameters (.node 0 "") version value ∧
    value = .timestamp context.writeTime ∧ context.writeTime < later.writeTime := by
  have checked : ((price lastYear).compiled?.any fun c => Fetch.isNamed c.1 c.2.1.roots && isUnjoined c.1 c.2.1.roots &&
      (((price lastYear).start c.2.2).plan {} context).2.toOption.any (fun plan => plan.statements.any fun s =>
        closes s.statement && s.batch.any fun _ => true) &&
      (price lastYear).settles c.2.2 ((price lastYear).isContinued c.2.2)) = true := by
    decide +kernel
  obtain ⟨⟨registry, t, v⟩, found, holds⟩ := (Option.any_eq_true _ _).mp checked
  simp only [Bool.and_eq_true, Option.any_eq_true, List.any_eq_true, and_true] at holds
  obtain ⟨⟨⟨named, unjoined⟩, plan, planned, s, member, isClose, parameters, bound⟩, settles⟩ := holds
  obtain ⟨affected, settled, flushed, continued⟩ := flush_of_settles settles
  simp only [isContinued, Bool.and_eq_true, List.all_eq_true, Option.all_eq_true, List.any_eq_true, Option.any_eq_true,
    beq_iff_eq] at continued
  obtain ⟨⟨columns, edit, set, slot, isSlot, row, node⟩, opened⟩ := continued
  obtain ⟨opened, opens, again⟩ := opens_of_check opened
  simp only [Option.any_eq_true, Bool.and_eq_true, Bool.not_eq_true', List.contains_iff_mem, List.any_eq_true,
    Option.all_eq_true, beq_iff_eq] at again
  obtain ⟨r, standing, ⟨⟨stored, changed⟩, writes, written, w, isWrite, ended⟩, opening⟩ := again
  have plans : ((settled.edited (price lastYear).again).plan {} later).1.Plans false later w (.node 0 "") :=
    ⟨r, writes, standing, stored, changed, eq_ok_of_toOption written, isWrite⟩
  obtain ⟨⟨version, value, dates⟩, -⟩ := plans.dates (.inl (closes_of_check ended))
  have sameOpening : version.opening.property = opened.opening.property := by
    obtain ⟨_, e, _, -, -, ⟨_, again, -, entity⟩, dated, -⟩ := dates
    cases standing.symm.trans again
    exact opening e entity version dated
  have continues : settled.Continues {} later 0 "" ((settled.edited (price lastYear).again).plan {} later).1
      (.node slot.row slot.node) :=
    .rewritten (fun edit member changed isChanged => canSet_of_check (columns edit member changed isChanged))
      ⟨edit, set, isSlot⟩ row (node ▸ rfl)
  obtain ⟨-, -, compiled⟩ := compiled_eq found
  have compiled : compile registry {} .sqlite none {} t = .ok ((price lastYear).start v).compiled := by
    rw [start, View.setValue_compiled]
    exact compiled
  obtain ⟨ends, succeeds, rounds⟩ := versions_end_at_write_time (eq_ok_of_toOption planned)
  obtain ⟨origin, first, begun, firstDates, -⟩ := ends s member (.inl (closes_of_check isClose)) parameters bound
  obtain ⟨other, again, alike⟩ := succeeds later rfl
  obtain ⟨same, -⟩ := rounds Unit obliging registry {} .sqlite none {} t settled () () affected
    (Fetch.isNamed_of_all named) (unjoined_of_check unjoined) compiled flushed 0 "" opened opens {} later _ _ (by decide)
    continues w.parameters version value (row ▸ node ▸ dates) sameOpening
  exact ⟨registry, t, v, plan, affected, settled, w.parameters, version, value, found, eq_ok_of_toOption planned,
    ⟨s, member, closes_of_check isClose, parameters, bound, origin, first, begun, firstDates⟩, ⟨other, again, alike⟩,
    flushed, dates, same, by decide⟩

theorem validYear : ValidDate 2020 1 1 := by
  decide

theorem validHalf : ValidTime 0 0 0 500000000 := by
  decide

theorem validRest : ValidTime 0 0 0 800000000 := by
  decide

def halfPast : Timestamp :=
  ⟨2020, 1, 1, 0, 0, 0, 500000000, validYear, validHalf⟩

def shortly : Context where
  clock := ⟨2020, 1, 1, 0, 0, 0, 800000000, validYear, validRest⟩

def Ends (plan : WritePlan) (column : String) (now start : Timestamp) : Prop :=
  ∃ s ∈ plan.statements, s.statement.Closes ∧ ∃ parameters ∈ s.batch,
    (∃ p ∈ parameters, p.name = nowName ∧ p.value = .timestamp now) ∧
    ∃ p ∈ parameters, p.name = keyName column ∧ p.value = .timestamp start

def ends (plan : WritePlan) (column : String) (now start : Timestamp) : Bool :=
  plan.statements.any fun s => closes s.statement && s.batch.any fun parameters =>
    parameters.any (fun p => p.name == nowName && p.value == .timestamp now) &&
      parameters.any fun p => p.name == keyName column && p.value == .timestamp start

theorem ends_of_check {plan : WritePlan} {column : String} {now start : Timestamp}
    (checked : ends plan column now start = true) : Ends plan column now start := by
  simp only [ends, List.any_eq_true, Bool.and_eq_true, beq_iff_eq] at checked
  obtain ⟨s, member, isClose, parameters, bound, ⟨p, isBound, name, time⟩, q, isKey, key, begun⟩ := checked
  exact ⟨s, member, closes_of_check isClose, parameters, bound, ⟨p, isBound, name, time⟩, q, isKey, key, begun⟩

set_option maxRecDepth 100000 in
/-- A version that has begun within the second of the write is ended before it begins. One that has been opened within
that second is ended as it begins. -/
theorem versions_end_too_soon :
    (∃ registry t v version plan, (price (.timestamp halfPast)).compiled? = some (registry, t, v) ∧
      v.root.version = some version ∧ (((price (.timestamp halfPast)).start v).plan {} shortly).2 = .ok plan ∧
      Ends plan version.opening.columnName shortly.writeTime halfPast ∧ shortly.writeTime < halfPast) ∧
    ∃ registry t v version affected settled plan, (price lastYear).compiled? = some (registry, t, v) ∧
      v.root.version = some version ∧
      obliging.flush {} context ((price lastYear).start v) () = (.ok affected, settled, ()) ∧
      context.clock < shortly.clock ∧ ((settled.edited (price lastYear).again).plan {} shortly).2 = .ok plan ∧
      Ends plan version.opening.columnName shortly.writeTime context.writeTime ∧
      shortly.writeTime = context.writeTime := by
  constructor
  · have checked : ((price (.timestamp halfPast)).compiled?.any fun c => c.2.2.root.version.any fun version =>
        (((price (.timestamp halfPast)).start c.2.2).plan {} shortly).2.toOption.any fun plan =>
          ends plan version.opening.columnName shortly.writeTime halfPast) = true := by
      decide +kernel
    obtain ⟨⟨registry, t, v⟩, found, holds⟩ := (Option.any_eq_true _ _).mp checked
    simp only [Option.any_eq_true] at holds
    obtain ⟨version, dated, plan, planned, ended⟩ := holds
    exact ⟨registry, t, v, version, plan, found, dated, eq_ok_of_toOption planned, ends_of_check ended, by decide⟩
  · have checked : ((price lastYear).compiled?.any fun c => c.2.2.root.version.any fun version =>
        (price lastYear).settles c.2.2 fun settled =>
          ((settled.edited (price lastYear).again).plan {} shortly).2.toOption.any fun plan =>
            ends plan version.opening.columnName shortly.writeTime context.writeTime) = true := by
      decide +kernel
    obtain ⟨⟨registry, t, v⟩, found, holds⟩ := (Option.any_eq_true _ _).mp checked
    simp only [Option.any_eq_true] at holds
    obtain ⟨version, dated, settles⟩ := holds
    obtain ⟨affected, settled, flushed, holds⟩ := flush_of_settles settles
    obtain ⟨plan, planned, ended⟩ := (Option.any_eq_true _ _).mp holds
    exact ⟨registry, t, v, version, affected, settled, plan, found, dated, flushed, by decide,
      eq_ok_of_toOption planned, ends_of_check ended, rfl⟩

end Revision

end ViewEngine
