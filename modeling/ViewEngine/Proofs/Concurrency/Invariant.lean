import ViewEngine.Proofs.Concurrency.Rows
import ViewEngine.Proofs.Concurrency.Sessions

/-!
What holds of sessions that end and start versions in one table, whatever the order of their steps. A
session is in flight from the end of a version to the start of the next one, which is its next step.
-/

namespace ViewEngine

open Sql Planning BoundParameter

def Execution.key (x : Execution) : Record := fun column =>
  valueOf x.parameters (keyName column)

/-- An execution that is to end a version in the table of an entity. -/
def Execution.Closes (e : Entity) (x : Execution) : Prop :=
  x.requiresMatch = true ∧ x.statement.tables = [⟨e.table, none⟩]

/-- An execution that is to start a version in the table of an entity. -/
def Execution.Opens (e : Entity) (x : Execution) : Prop :=
  x.statement.kind = .insert ∧ x.statement.tables = [⟨e.table, none⟩]

def Execution.SameVersion (c : Collation) (e : Entity) (version : VersionColumns) (x y : Execution) : Prop :=
  e.sameKey c x.key y.key = true ∧ x.key version.opening.columnName = y.key version.opening.columnName

def Execution.FindsVersion (c : Collation) (e : Entity) (version : VersionColumns) (rows : List Record)
    (x : Execution) : Prop :=
  ∃ record ∈ rows, e.sameKey c record x.key = true ∧
    record version.opening.columnName = x.key version.opening.columnName ∧
    (record version.closing.columnName).isNull = true

section Kinds

variable (c : Collation) (e : Entity) (version : VersionColumns) (columns : List String)

/-- The end of the version that begins at `opening`, at a later time. -/
structure Execution.IsClose (x : Execution) (opening now : Timestamp) : Prop where
  statement : x.statement = closeStatement e.table version.closing.columnName e.storageKeys
  requiresMatch : x.requiresMatch = true
  bound : ∀ a ∈ e.storageKeys, keyName a.columnName ∈ x.parameters.map (·.name)
  nowBound : nowName ∈ x.parameters.map (·.name)
  nowValue : valueOf x.parameters nowName = .timestamp now
  openingValue : x.key version.opening.columnName = .timestamp opening
  ordered : opening < now
  stored : x.key.HasStoredKeys e

/-- The start of the version that follows one that has been ended. -/
structure Execution.IsSuccessor (x close : Execution) (now : Timestamp) : Prop where
  opens : x.Opens e
  requiresMatch : x.requiresMatch = false
  keys : ∀ a ∈ e.storageKeys, x.key a.columnName = close.key a.columnName
  effect : version.opening.columnName ≠ version.closing.columnName → ∃ next : Record → Record,
    (∀ record, (next record).interval? version = some ⟨now, none⟩ ∧
      ∀ a ∈ e.identityKeys, next record a.columnName = record a.columnName) ∧
    ∀ db : Database, (db e.table).columns = columns → ∃ done affected,
      x.statement.execute? c x.parameters db = some (done, affected) ∧
      (done e.table).columns = columns ∧
      (done e.table).rows = (db e.table).rows ++
        ((db e.table).rows.filter (hasKeys c e.storageKeys x.parameters)).map next

/-- What changes neither the keys nor the openings in the table, and opens nothing again. -/
structure Execution.IsHarmless (x : Execution) : Prop where
  notClose : ¬ x.Closes e
  notOpen : ¬ x.Opens e
  follows : ∀ (db done : Database) (affected : Nat),
    x.statement.execute? c x.parameters db = some (done, affected) →
      (done e.table).columns = (db e.table).columns ∧
      ∃ change : Record → Record, (done e.table).rows = (db e.table).rows.map change ∧
        ∀ record : Record, record.Follows e version (change record)

/-- What a session may have to execute: pairs of an end and a start, ends of rows that are taken away,
and what is harmless. -/
inductive PlannedExecutions : List Execution → Prop where
  | nil : PlannedExecutions []
  | version {x y : Execution} {opening now : Timestamp} {rest : List Execution} :
    x.IsClose e version opening now → y.IsSuccessor c e version columns x now →
    PlannedExecutions rest → PlannedExecutions (x :: y :: rest)
  | removal {x : Execution} {opening now : Timestamp} {rest : List Execution} :
    x.IsClose e version opening now → PlannedExecutions rest → PlannedExecutions (x :: rest)
  | harmless {x : Execution} {rest : List Execution} :
    x.IsHarmless c e version → PlannedExecutions rest → PlannedExecutions (x :: rest)

/-- A session with respect to the rows of the table. `flight` is the end that it has executed last, with
its time, where the start of the next version is still to come. -/
structure Session.Agrees (rows : List Record) (flight : Option (Execution × Timestamp))
    (session : Session) : Prop where
  grounded : flight = none → session.stopped = none →
    PlannedExecutions c e version columns session.pending
  flying : ∀ close now, flight = some (close, now) → session.stopped = none ∧
    ∃ x rest, session.pending = x :: rest ∧ x.IsSuccessor c e version columns close now ∧
      PlannedExecutions c e version columns rest
  awaits : ∀ close now, flight = some (close, now) →
    (version.opening.columnName ≠ version.closing.columnName ∧
      ∃ opening, close.IsClose e version opening now) ∧ AwaitsVersion c e version rows close.key now
  ended : ∀ x ∈ session.passed, x.Closes e → ∃ opening now,
    x.IsClose e version opening now ∧ HasEnded c e version rows x.key opening
  once : session.passed.Pairwise fun x y => x.Closes e → y.Closes e → ¬ x.SameVersion c e version y
  halted : ∀ error, session.stopped = some error → ∃ x rest, session.pending = x :: rest ∧
    ¬ x.Opens e ∧ (x.Closes e → error = x.stale)

structure SessionsInvariant {ι : Type} (flight : ι → Option (Execution × Timestamp)) (s : Sessions ι) :
    Prop where
  sameColumns : (s.db e.table).columns = columns
  shared : SharedRows c e version (s.db e.table).rows
  agrees : ∀ i, (s.session i).Agrees c e version columns (s.db e.table).rows (flight i)
  apart : ∀ i j first second, i ≠ j → flight i = some first → flight j = some second →
    e.sameKey c first.1.key second.1.key = false
  first : ∀ i j, i ≠ j → ∀ x ∈ (s.session i).passed, ∀ y ∈ (s.session j).passed,
    x.Closes e → y.Closes e → ¬ x.SameVersion c e version y

end Kinds

variable {c : Collation} {e : Entity} {version : VersionColumns} {columns : List String}

namespace Execution

variable {x y : Execution} {opening now : Timestamp} {db : Database}

theorem IsClose.closes (close : x.IsClose e version opening now) : x.Closes e :=
  ⟨close.requiresMatch, by rw [close.statement]; rfl⟩

theorem IsClose.not_opens (close : x.IsClose e version opening now) : ¬ x.Opens e := by
  rintro ⟨kind, -⟩
  rw [close.statement] at kind
  contradiction

/-- The rows that an end finds are those of its version that are open. -/
theorem IsClose.finds (versioned : e.IsVersioned version) (close : x.IsClose e version opening now)
    {rows : List Record} (shared : SharedRows c e version rows) :
    FindsOpen c e version rows (isEnded c version.closing.columnName e.storageKeys x.parameters) x.key
      opening := by
  intro record member
  obtain ⟨i, dated⟩ := shared.dated record member
  rw [isEnded, Bool.and_eq_true, hasKeys_iff x.key _ versioned fun _ _ => rfl, close.openingValue,
    Record.interval?_opening dated, equal_timestamps]
  refine and_congr_left fun _ => and_congr_right fun _ => ⟨fun begins => ⟨i, dated, begins⟩, ?_⟩
  rintro ⟨j, again, begins⟩
  cases dated.symm.trans again
  exact begins

theorem IsClose.findsVersion_iff (versioned : e.IsVersioned version) (close : x.IsClose e version opening now)
    {rows : List Record} (shared : SharedRows c e version rows) :
    x.FindsVersion c e version rows ↔
      rows.countP (isEnded c version.closing.columnName e.storageKeys x.parameters) ≠ 0 := by
  rw [← Nat.pos_iff_ne_zero, List.countP_pos_iff]
  refine exists_congr fun record => and_congr_right fun member => ?_
  obtain ⟨i, dated⟩ := shared.dated record member
  rw [close.finds versioned shared record member, Record.IsVersionOf, and_assoc]
  refine and_congr_right fun _ => and_congr_left fun _ => ?_
  rw [close.openingValue, Record.interval?_opening dated, Value.timestamp.injEq]
  constructor
  · exact fun begins => ⟨i, dated, begins⟩
  · rintro ⟨j, again, begins⟩
    cases dated.symm.trans again
    exact begins

theorem IsClose.execute? (versioned : e.IsVersioned version) (hasColumns : e.HasColumns)
    (close : x.IsClose e version opening now)
    (known : ∀ a ∈ e.scalars, a.columnName ∈ (db e.table).columns) :
    ∃ done, x.statement.execute? c x.parameters db = some (done,
        (db e.table).rows.countP (isEnded c version.closing.columnName e.storageKeys x.parameters)) ∧
      (done e.table).columns = (db e.table).columns ∧
      (done e.table).rows = endWhere version now
        (isEnded c version.closing.columnName e.storageKeys x.parameters) (db e.table).rows := by
  rw [close.statement, closeStatement_execute? (known _ versioned.closing)
    (fun a member => known a (versioned.storageKeys_scalars hasColumns a member)) close.nowBound
    close.bound, close.nowValue]
  refine ⟨_, rfl, ?_, ?_⟩
  · rw [Function.update_self]
  · rw [Function.update_self]
    rfl

theorem IsClose.starts (versioned : e.IsVersioned version) (close : x.IsClose e version opening now)
    {rows : List Record} (shared : SharedRows c e version rows)
    (keys : ∀ a ∈ e.storageKeys, y.key a.columnName = x.key a.columnName) {next : Record → Record}
    (succeeds : ∀ record, (next record).interval? version = some ⟨now, none⟩ ∧
      ∀ a ∈ e.identityKeys, next record a.columnName = record a.columnName) :
    Starts c e version rows x.key now ((rows.filter (hasKeys c e.storageKeys y.parameters)).map next) := by
  have finds : ∀ record ∈ rows, hasKeys c e.storageKeys y.parameters record = true →
      record.IsVersionOf c e version x.key opening := by
    intro record member found
    obtain ⟨i, dated⟩ := shared.dated record member
    rw [hasKeys_iff _ _ versioned keys, close.openingValue, Record.interval?_opening dated,
      equal_timestamps] at found
    exact ⟨found.1, i, dated, found.2⟩
  refine ⟨?_, ?_, ?_⟩
  · rw [List.length_map]
    exact shared.single_version close.stored finds
  · rw [List.forall_mem_map]
    exact fun record _ => (succeeds record).1
  · rw [List.forall_mem_map]
    intro record found
    obtain ⟨member, found⟩ := List.mem_filter.mp found
    exact ⟨record, member, (finds record member found).1, (succeeds record).2⟩

/-- Ends of one version name the same row, and its version by the same instant. -/
theorem SameVersion.symm (first : x.key.HasStoredKeys e) (second : y.key.HasStoredKeys e)
    (same : x.SameVersion c e version y) : y.SameVersion c e version x :=
  ⟨Record.sameKey_symm first second same.1, same.2.symm⟩

end Execution

variable {rows changed : List Record} {flight : Option (Execution × Timestamp)} {session : Session}

namespace Session.Agrees

theorem mono (agrees : session.Agrees c e version columns rows flight)
    (awaits : ∀ close now, flight = some (close, now) → AwaitsVersion c e version rows close.key now →
      AwaitsVersion c e version changed close.key now)
    (ended : ∀ key opening, key.HasStoredKeys e → HasEnded c e version rows key opening →
      HasEnded c e version changed key opening) :
    session.Agrees c e version columns changed flight where
  grounded := agrees.grounded
  flying := agrees.flying
  awaits close now flies := (agrees.awaits close now flies).imp_right (awaits close now flies)
  ended x passed closes := by
    obtain ⟨opening, now, close, settled⟩ := agrees.ended x passed closes
    exact ⟨opening, now, close, ended _ _ close.stored settled⟩
  once := agrees.once
  halted := agrees.halted

/-- A session that stops on the ground, with the error of an end that finds nothing. -/
theorem stop {x : Execution} {rest : List Execution} {error : ViewError}
    (agrees : session.Agrees c e version columns rows none) (pending : session.pending = x :: rest)
    (notOpen : ¬ x.Opens e) (stale : x.Closes e → error = x.stale) :
    { session with stopped := some error }.Agrees c e version columns rows none where
  grounded _ running := nomatch running
  flying _ _ flies := nomatch flies
  awaits _ _ flies := nomatch flies
  ended := agrees.ended
  once := agrees.once
  halted := by
    rintro _ ⟨⟩
    exact ⟨x, rest, pending, notOpen, stale⟩

theorem pass {x : Execution} {rest : List Execution} {next : Option (Execution × Timestamp)}
    (agrees : session.Agrees c e version columns rows flight)
    (keepsEnded : ∀ key opening, key.HasStoredKeys e → HasEnded c e version rows key opening →
      HasEnded c e version changed key opening)
    (closes : x.Closes e → (∃ opening now, x.IsClose e version opening now ∧
      HasEnded c e version changed x.key opening) ∧
      ∀ y ∈ session.passed, y.Closes e → ¬ y.SameVersion c e version x)
    (lands : next = none → PlannedExecutions c e version columns rest)
    (flies : ∀ close now, next = some (close, now) →
      (∃ x more, rest = x :: more ∧ x.IsSuccessor c e version columns close now ∧
        PlannedExecutions c e version columns more) ∧
      (version.opening.columnName ≠ version.closing.columnName ∧
        ∃ opening, close.IsClose e version opening now) ∧
        AwaitsVersion c e version changed close.key now) :
    Session.Agrees c e version columns changed next ⟨session.passed ++ [x], rest, none⟩ where
  grounded isNone _ := lands isNone
  flying close now isSome := ⟨rfl, (flies close now isSome).1⟩
  awaits close now isSome := (flies close now isSome).2
  ended y passed closesY := by
    rcases List.mem_append.mp passed with before | last
    · obtain ⟨opening, now, close, settled⟩ := agrees.ended y before closesY
      exact ⟨opening, now, close, keepsEnded _ _ close.stored settled⟩
    · cases List.mem_singleton.mp last
      exact (closes closesY).1
  once := by
    refine List.pairwise_append.mpr ⟨agrees.once, List.pairwise_singleton .., ?_⟩
    intro y before z last closesY closesX
    cases List.mem_singleton.mp last
    exact (closes closesX).2 y before closesY
  halted _ stopped := nomatch stopped

end Session.Agrees

end ViewEngine
