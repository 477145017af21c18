import ViewEngine.Proofs.Concurrency.Flush
import ViewEngine.Proofs.Concurrency.Plans
import ViewEngine.Proofs.Concurrency.Steps
import ViewEngine.Proofs.Versions.WriteBack

namespace ViewEngine

open Sql Planning

variable {ι : Type} [DecidableEq ι]

theorem PlannedExecutions.end_before {c : Collation} {e : Entity} {version : VersionColumns}
    {columns : List String} {executions before after : List Execution} {y : Execution}
    (planned : PlannedExecutions c e version columns executions) (opens : y.Opens e)
    (split : executions = before ++ y :: after) : ∃ earlier x, before = earlier ++ [x] ∧ x.Closes e ∧
      ∀ a ∈ e.storageKeys, y.key a.columnName = x.key a.columnName := by
  -- The executions before `y` are taken off one by one, or two where a version is ended and started.
  have later {first : Execution} {earlier : List Execution} (found : ∃ others x, earlier = others ++ [x] ∧
      x.Closes e ∧ ∀ a ∈ e.storageKeys, y.key a.columnName = x.key a.columnName) :
      ∃ others x, first :: earlier = others ++ [x] ∧ x.Closes e ∧
        ∀ a ∈ e.storageKeys, y.key a.columnName = x.key a.columnName := by
    obtain ⟨others, x, rfl, ended⟩ := found
    exact ⟨first :: others, x, rfl, ended⟩
  induction planned generalizing before with
  | nil => simp at split
  | @version first second opening now rest close successor _ ih =>
      obtain ⟨-, same⟩ | ⟨tail, rfl, shorter⟩ := List.cons_eq_append_iff.mp split
      · cases same
        exact absurd opens close.not_opens
      obtain ⟨rfl, same⟩ | ⟨tail, rfl, shortest⟩ := List.cons_eq_append_iff.mp shorter
      · cases same
        exact ⟨[], first, rfl, close.closes, successor.keys⟩
      · exact later (later (ih shortest))
  | removal close _ ih =>
      obtain ⟨-, same⟩ | ⟨tail, rfl, shorter⟩ := List.cons_eq_append_iff.mp split
      · cases same
        exact absurd opens close.not_opens
      · exact later (ih shorter)
  | harmless harmless _ ih =>
      obtain ⟨-, same⟩ | ⟨tail, rfl, shorter⟩ := List.cons_eq_append_iff.mp split
      · cases same
        exact absurd opens harmless.notOpen
      · exact later (ih shorter)

/-- What the first writer of a version winning comes to in a state of the sessions. -/
structure Sessions.FirstWriterWins (c : Collation) (e : Entity) (version : VersionColumns)
    (s : Sessions ι) : Prop where
  /-- Each row has at most one open version. -/
  open_le_one : ∀ key : Record, key.HasStoredKeys e → ((s.db e.table).rows.filter fun record =>
    e.sameKey c record key && (record version.closing.columnName).isNull).length ≤ 1
  /-- Of all flushes that end one version at most one has got past its end, and only once. -/
  first : ∀ i j, ∀ x ∈ (s.session i).passed, ∀ y ∈ (s.session j).passed, x.Closes e → y.Closes e →
    x.SameVersion c e version y → i = j
  once : ∀ i, (s.session i).passed.Pairwise fun x y =>
    x.Closes e → y.Closes e → ¬ x.SameVersion c e version y
  /-- A flush that comes to the end of a version gets past it if the version is still open. -/
  ends : ∀ i x rest, (s.session i).stopped = none → (s.session i).pending = x :: rest → x.Closes e →
    x.FindsVersion c e version (s.db e.table).rows →
      (s.step c i).session i = ⟨(s.session i).passed ++ [x], rest, none⟩
  /-- It stops there if not, because it is stale. -/
  misses : ∀ i x rest, (s.session i).stopped = none → (s.session i).pending = x :: rest → x.Closes e →
    ¬ x.FindsVersion c e version (s.db e.table).rows →
      (s.step c i).session i = { s.session i with stopped := some x.stale }
  /-- A flush that comes to the start of a version gets past it, and then the row has an open version. -/
  starts : ∀ i x rest, (s.session i).stopped = none → (s.session i).pending = x :: rest → x.Opens e →
    (s.step c i).session i = ⟨(s.session i).passed ++ [x], rest, none⟩ ∧
      ∃ record ∈ ((s.step c i).db e.table).rows, e.sameKey c record x.key = true ∧
        (record version.closing.columnName).isNull = true
  /-- Every execution is gone past, or ends the flush. -/
  steps : ∀ i x rest, (s.session i).stopped = none → (s.session i).pending = x :: rest →
    (s.step c i).session i = ⟨(s.session i).passed ++ [x], rest, none⟩ ∨
      ∃ error, (s.step c i).session i = { s.session i with stopped := some error }
  /-- Where a flush has got past the end of a version, any other one that comes to it stops, because it is
  stale. -/
  stale : ∀ i j x rest, (s.session i).stopped = none → (s.session i).pending = x :: rest → x.Closes e →
    ∀ y ∈ (s.session j).passed, y.Closes e → y.SameVersion c e version x →
      (s.step c i).session i = { s.session i with stopped := some x.stale }
  /-- A flush never stops at the start of a version; and if at an end, because it is stale. Once it has
  stopped it executes nothing more. -/
  stopped : ∀ i error, (s.session i).stopped = some error → ∃ x rest, (s.session i).pending = x :: rest ∧
    ¬ x.Opens e ∧ (x.Closes e → error = x.stale) ∧
      ∀ later, (s.run c later).session i = s.session i
  /-- Of a version that one flush has ended, any other one that was to end it too has stopped when it is done: there,
  because it is stale, or before it came there. -/
  lost : ∀ i j x y, i ≠ j → x ∈ (s.session i).passed → y ∈ (s.session j).passed ++ (s.session j).pending →
    x.Closes e → y.Closes e → x.SameVersion c e version y → (s.session j).IsDone →
      ∃ error z rest, (s.session j).stopped = some error ∧ (s.session j).pending = z :: rest ∧
        (y = z ∧ error = y.stale ∨ y ∈ rest)
  /-- A version is started only directly after a flush has got past the end of the one before. -/
  started : ∀ i before y after, (s.session i).passed ++ (s.session i).pending = before ++ y :: after →
    y.Opens e → ∃ earlier x, before = earlier ++ [x] ∧ x.Closes e ∧
      ∀ a ∈ e.storageKeys, y.key a.columnName = x.key a.columnName

namespace SessionsInvariant

variable {c : Collation} {e : Entity} {version : VersionColumns} {columns : List String}
  {flight : ι → Option (Execution × Timestamp)} {s : Sessions ι}

omit [DecidableEq ι] in
theorem first_of_sameVersion (inv : SessionsInvariant c e version columns flight s) {i j : ι}
    {x y : Execution} (passedX : x ∈ (s.session i).passed) (passedY : y ∈ (s.session j).passed)
    (closesX : x.Closes e) (closesY : y.Closes e) (same : x.SameVersion c e version y) : i = j :=
  by_contra fun different => inv.first i j different x passedX y passedY closesX closesY same

section Running

variable {i : ι} {x : Execution} {rest : List Execution}

omit [DecidableEq ι] in
theorem exists_isClose (inv : SessionsInvariant c e version columns flight s)
    (running : (s.session i).stopped = none) (pending : (s.session i).pending = x :: rest)
    (closes : x.Closes e) : ∃ opening now, x.IsClose e version opening now := by
  cases flies : flight i with
  | some first =>
      obtain ⟨-, y, more, again, successor, -⟩ := (inv.agrees i).flying first.1 first.2 flies
      cases pending.symm.trans again
      exact absurd closes.1 (by simp [successor.requiresMatch])
  | none =>
      have planned := (inv.agrees i).grounded flies running
      rw [pending] at planned
      cases planned with
      | version close => exact ⟨_, _, close⟩
      | removal close => exact ⟨_, _, close⟩
      | harmless harmless => exact absurd closes harmless.notClose

theorem step_end (inv : SessionsInvariant c e version columns flight s) (versioned : e.IsVersioned version)
    (hasColumns : e.HasColumns) (known : ∀ a ∈ e.scalars, a.columnName ∈ columns)
    (running : (s.session i).stopped = none) (pending : (s.session i).pending = x :: rest)
    (closes : x.Closes e) :
    (x.FindsVersion c e version (s.db e.table).rows →
      (s.step c i).session i = ⟨(s.session i).passed ++ [x], rest, none⟩) ∧
    (¬ x.FindsVersion c e version (s.db e.table).rows →
      (s.step c i).session i = { s.session i with stopped := some x.stale }) := by
  obtain ⟨opening, now, close⟩ := inv.exists_isClose running pending closes
  obtain ⟨done, executed, -, -⟩ := close.execute? (c := c) versioned hasColumns (inv.sameColumns.symm ▸ known)
  have outcome := Execution.outcome_of_execute? executed
  rw [close.findsVersion_iff versioned inv.shared]
  constructor
  · intro found
    rw [if_neg fun both => found both.1] at outcome
    rw [Sessions.step_of_ok running pending outcome]
    exact Function.update_self ..
  · intro missing
    rw [if_pos ⟨not_not.mp missing, close.requiresMatch⟩] at outcome
    rw [Sessions.step_of_error running pending outcome]
    exact Function.update_self ..

theorem step_start (inv : SessionsInvariant c e version columns flight s) (versioned : e.IsVersioned version)
    (running : (s.session i).stopped = none) (pending : (s.session i).pending = x :: rest) (opens : x.Opens e)
    {close : Execution} (passed : close ∈ (s.session i).passed) (closes : close.Closes e)
    (keys : ∀ a ∈ e.storageKeys, x.key a.columnName = close.key a.columnName) :
    (s.step c i).session i = ⟨(s.session i).passed ++ [x], rest, none⟩ ∧
      ∃ record ∈ ((s.step c i).db e.table).rows, e.sameKey c record x.key = true ∧
        (record version.closing.columnName).isNull = true := by
  cases flies : flight i with
  | none =>
      have planned := (inv.agrees i).grounded flies running
      rw [pending] at planned
      cases planned with
      | version close => exact absurd opens close.not_opens
      | removal close => exact absurd opens close.not_opens
      | harmless harmless => exact absurd opens harmless.notOpen
  | some first =>
      obtain ⟨-, y, more, again, successor, -⟩ := (inv.agrees i).flying first.1 first.2 flies
      cases pending.symm.trans again
      obtain ⟨⟨different, -⟩, -⟩ := (inv.agrees i).awaits first.1 first.2 flies
      obtain ⟨next, succeeds, effect⟩ := successor.effect different
      obtain ⟨done, affected, executed, -, rows⟩ := effect s.db inv.sameColumns
      have outcome := Execution.outcome_of_execute? executed
      rw [if_neg fun both => by simp [successor.requiresMatch] at both] at outcome
      rw [Sessions.step_of_ok running pending outcome]
      refine ⟨Function.update_self .., ?_⟩
      -- The version that the session has ended is still there, and is what the new one is made of.
      obtain ⟨opening, _, isClose, settled⟩ := (inv.agrees i).ended close passed closes
      obtain ⟨former, member, same, j, dated, begins⟩ := settled.there
      have found : hasKeys c e.storageKeys x.parameters former = true := by
        rw [hasKeys_iff close.key former versioned keys, isClose.openingValue, Record.interval?_opening dated,
          equal_timestamps]
        exact ⟨same, begins⟩
      have identity : ∀ a ∈ e.identityKeys, x.key a.columnName = close.key a.columnName := fun a isKey =>
        keys a (versioned.storageKeys_eq ▸ List.mem_append_left _ isKey)
      refine ⟨next former, ?_, ?_, ?_⟩
      · rw [rows]
        exact List.mem_append_right _ (List.mem_map_of_mem (List.mem_filter.mpr ⟨member, found⟩))
      · rw [Record.sameKey_congr_left (succeeds former).2, Record.sameKey_congr_right identity]
        exact same
      · rw [(Record.interval?_eq_open_iff.mp (succeeds former).1).2]
        rfl

end Running

theorem stale_of_passed (inv : SessionsInvariant c e version columns flight s)
    (versioned : e.IsVersioned version) (hasColumns : e.HasColumns)
    (known : ∀ a ∈ e.scalars, a.columnName ∈ columns) {i j : ι} {x y : Execution} {rest : List Execution}
    (running : (s.session i).stopped = none) (pending : (s.session i).pending = x :: rest)
    (closes : x.Closes e) (passed : y ∈ (s.session j).passed) (closesY : y.Closes e)
    (same : y.SameVersion c e version x) :
    (s.step c i).session i = { s.session i with stopped := some x.stale } := by
  obtain ⟨_, next⟩ := step versioned hasColumns known s i (c := c) ⟨flight, inv⟩
  rcases Sessions.step_cases (c := c) running pending with ⟨error, stops⟩ | passes
  · obtain ⟨x', rest', again, -, stale⟩ := (next.agrees i).halted error (by rw [stops])
    rw [stops] at again
    cases pending.symm.trans again
    rw [stops, stale closes]
  · by_cases own : j = i
    · subst own
      have once := (next.agrees j).once
      rw [passes] at once
      exact absurd same ((List.pairwise_append.mp once).2.2 y passed x (List.mem_singleton_self _) closesY
        closes)
    · have still : y ∈ ((s.step c i).session j).passed := by rwa [Sessions.step_session_of_ne own]
      have last : x ∈ ((s.step c i).session i).passed := by simp [passes]
      exact absurd same (next.first j i own y still x last closesY closes)

omit [DecidableEq ι] in
theorem stopped_of_passed (inv : SessionsInvariant c e version columns flight s) {i j : ι} {x y : Execution}
    (different : i ≠ j) (passed : x ∈ (s.session i).passed)
    (among : y ∈ (s.session j).passed ++ (s.session j).pending) (closes : x.Closes e) (closesY : y.Closes e)
    (same : x.SameVersion c e version y) (done : (s.session j).IsDone) :
    ∃ error z rest, (s.session j).stopped = some error ∧ (s.session j).pending = z :: rest ∧
      (y = z ∧ error = y.stale ∨ y ∈ rest) := by
  have left : y ∈ (s.session j).pending := (List.mem_append.mp among).resolve_left fun passedY =>
    inv.first i j different x passed y passedY closes closesY same
  obtain ⟨error, stopped⟩ := Option.ne_none_iff_exists'.mp
    (done.resolve_left fun nothing => absurd (nothing ▸ left) List.not_mem_nil)
  obtain ⟨z, rest, pending, -, stale⟩ := (inv.agrees j).halted error stopped
  refine ⟨error, z, rest, stopped, pending, ?_⟩
  rcases List.mem_cons.mp (pending ▸ left) with rfl | later
  · exact .inl ⟨rfl, stale closesY⟩
  · exact .inr later

end SessionsInvariant

/-- Sessions that write versions to one table, with times of writing later than the openings of the
versions that they end: in every state of every run the first writer of a version wins. A session that is
scheduled for each of its executions is done; alone, it does what a flush does through an executor. -/
theorem first_writer_wins {c : Collation} {e : Entity} {version : VersionColumns} {db : Database}
    (versioned : e.IsVersioned version) (hasColumns : e.HasColumns)
    (known : ∀ a ∈ e.scalars, a.columnName ∈ (db e.table).columns)
    (versions : Versions c e version (db e.table).rows)
    (keyed : ∀ record ∈ (db e.table).rows, record.HasStoredKeys e) {view : ι → View}
    {settings : ι → ViewSettings} {context : ι → Context} {plan : ι → WritePlan}
    (planned : ∀ i, ((view i).plan (settings i) (context i)).2 = .ok (plan i))
    (writesVersions : ∀ i, ((view i).plan (settings i) (context i)).1.WritesVersions (context i) e version
      (db e.table).columns) (schedule : List ι) :
    ((Sessions.start db fun i => (plan i).executions).run c schedule).FirstWriterWins c e version ∧
      ∀ i, ((Sessions.start db fun i => (plan i).executions).run c schedule).CarriesOut c db schedule i (plan i) := by
  have executions (i : ι) := View.plan_executions (c := c) versioned (planned i) (writesVersions i)
  have initial : SessionsInvariant c e version (db e.table).columns (fun _ => none)
      (Sessions.start db fun i => (plan i).executions) := .start rfl (.of_versions versions keyed) executions
  obtain ⟨flight, inv⟩ := initial.run versioned hasColumns known schedule
  refine ⟨?_, fun i => Sessions.carriesOut_run (fun i => (plan i).executions) rfl schedule⟩
  have before {i : ι} {before after : List Execution} {y : Execution}
      (split : (((Sessions.start db fun i => (plan i).executions).run c schedule).session i).passed ++
        (((Sessions.start db fun i => (plan i).executions).run c schedule).session i).pending = before ++ y :: after)
      (opens : y.Opens e) := (executions i).end_before opens (Sessions.run_passed_pending schedule ▸ split)
  generalize (Sessions.start db fun i => (plan i).executions).run c schedule = s at inv before
  exact {
    open_le_one := fun key stored => inv.shared.single_open stored
    first := fun i j x passedX y passedY => inv.first_of_sameVersion passedX passedY
    once := fun i => (inv.agrees i).once
    ends := fun i x rest running pending closes =>
      (inv.step_end versioned hasColumns known running pending closes).1
    misses := fun i x rest running pending closes =>
      (inv.step_end versioned hasColumns known running pending closes).2
    starts := fun i x rest running pending opens => by
      obtain ⟨earlier, close, passed, closes, keys⟩ := before (by rw [pending]) opens
      exact inv.step_start versioned running pending opens (by simp [passed]) closes keys
    steps := fun i x rest running pending => (Sessions.step_cases running pending).symm
    stale := fun i j x rest running pending closes y passed closesY =>
      inv.stale_of_passed versioned hasColumns known running pending closes passed closesY
    stopped := fun i error stopped => by
      obtain ⟨x, rest, pending, notOpen, stale⟩ := (inv.agrees i).halted error stopped
      exact ⟨x, rest, pending, notOpen, stale, fun later => Sessions.run_session_of_stopped later stopped⟩
    lost := fun i j x y different passed among => inv.stopped_of_passed different passed among
    started := fun i _ y _ split opens => before split opens }

namespace Price

/-- Two sessions that have read the current price: one changes its amount, the other takes it away. -/
def session (changes : Bool) : View :=
  if changes then ⟨view, [edited], []⟩ else ⟨view, [], [edited.data]⟩

def planned (changes : Bool) : WritePlan :=
  match ((session changes).plan {} context).2 with
  | .ok plan => plan
  | .error _ => ⟨[], context.writeTime, []⟩

theorem session_planned (changes : Bool) :
    ((session changes).plan {} context).2 = .ok (planned changes) := by
  cases changes
  · rfl
  · rfl

theorem sharesHistory : entity.SharesHistory versions (database "price").columns entity where
  table := rfl
  keys := rfl
  versioned := isVersioned
  hasColumns := hasColumns
  known := by decide

theorem namesVersion : edited.data.NamesVersion entity versions context.writeTime where
  keys := by
    rintro a (_ | ⟨_, ⟨⟩⟩) value held
    cases held
    rfl
  opening := by
    intro value held
    cases held
    exact ⟨_, rfl, by decide⟩

theorem roots_eq : ∀ other ∈ view.entities, other = entity := by
  rintro other (_ | ⟨_, ⟨⟩⟩)
  rfl

theorem writesVersions (changes : Bool) :
    ((session changes).plan {} context).1.WritesVersions context entity versions
      (database "price").columns := by
  have compiled : ((session changes).plan {} context).1.compiled = view := by cases changes <;> rfl
  refine ⟨?_, ?_, ?_, ?_, ?_⟩
  · rw [compiled]
    exact fun other member _ => roots_eq other member ▸ sharesHistory
  · rw [compiled]
    exact fun other member => congrArg Entity.table (roots_eq other (List.mem_append_left _ member))
  · cases changes
    · rintro r ⟨⟩
    · rintro r (_ | ⟨_, ⟨⟩⟩) isNew
      exact absurd isNew (by decide)
  · cases changes
    · rintro r ⟨⟩
    · rintro r (_ | ⟨_, ⟨⟩⟩) node (_ | ⟨_, ⟨⟩⟩) other data found - standing
      cases found
      cases standing
      exact namesVersion
  · cases changes
    · rintro data (_ | ⟨_, ⟨⟩⟩) -
      exact namesVersion
    · rintro data ⟨⟩

theorem storedKeys : ∀ record ∈ (database "price").rows, record.HasStoredKeys entity := by
  rintro record (_ | ⟨_, _ | ⟨_, ⟨⟩⟩⟩) a (_ | ⟨_, ⟨⟩⟩)
  · rfl
  · rfl

def turns : Sessions Bool :=
  (Sessions.start database fun changes => (planned changes).executions).run .standard [true, false, true, false]

/-- The session that comes first ends the version and starts the next one; the other one finds it ended, and
stops. -/
theorem first_session_wins : turns.FirstWriterWins .standard entity versions ∧
    (∀ changes, turns.CarriesOut .standard database [true, false, true, false] changes (planned changes)) ∧
    (turns.session true).passed = (planned true).executions ∧ (turns.session true).stopped = none ∧
    (turns.session false).passed = [] ∧ (turns.session false).pending = (planned false).executions ∧
    ∃ x ∈ (planned false).executions, (turns.session false).stopped = some x.stale := by
  obtain ⟨wins, carriesOut⟩ : turns.FirstWriterWins .standard entity versions ∧
      ∀ changes, turns.CarriesOut .standard database [true, false, true, false] changes (planned changes) :=
    first_writer_wins isVersioned hasColumns sharesHistory.known storedVersion.versions storedKeys session_planned
      writesVersions _
  have completed : (turns.session true).pending = [] :=
    List.isEmpty_iff.mp (by decide +kernel)
  have held : (turns.session false).passed = [] :=
    List.isEmpty_iff.mp (by decide +kernel)
  have passed := (carriesOut true).inTurn
  have pending := (carriesOut false).inTurn
  rw [completed, List.append_nil] at passed
  rw [held, List.nil_append] at pending
  obtain ⟨error, stopped⟩ := Option.isSome_iff_exists.mp
    (show (turns.session false).stopped.isSome = true by decide +kernel)
  obtain ⟨x, rest, first, -, stale, -⟩ := wins.stopped false error stopped
  have among : x ∈ (planned false).executions := by
    rw [← pending, first]
    exact List.mem_cons_self ..
  have closes : ∀ x ∈ (planned false).executions, x.Closes entity := by
    rintro x (_ | ⟨_, ⟨⟩⟩)
    exact ⟨rfl, rfl⟩
  exact ⟨wins, carriesOut, passed, Option.isNone_iff_eq_none.mp (by decide +kernel), held, pending, x, among,
    stopped.trans (congrArg some (stale (closes x among)))⟩

end Price

end ViewEngine
