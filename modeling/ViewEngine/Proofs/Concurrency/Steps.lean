import ViewEngine.Proofs.Concurrency.Invariant

namespace ViewEngine

open Sql Planning BoundParameter

variable {c : Collation} {e : Entity} {version : VersionColumns} {columns : List String} {ι : Type}
  [DecidableEq ι] {flight : ι → Option (Execution × Timestamp)} {s : Sessions ι} {i : ι} {db : Database}
  {x : Execution} {rest : List Execution}

namespace Sessions

theorem passed_of_stop (error : ViewError) (j : ι) :
    (Function.update s.session i { s.session i with stopped := some error } j).passed =
      (s.session j).passed := by
  by_cases same : j = i
  · subst same
    rw [Function.update_self]
  · rw [Function.update_of_ne same]

theorem mem_passed_of_pass {y : Execution} {j : ι}
    (passed : y ∈ (Function.update s.session i ⟨(s.session i).passed ++ [x], rest, none⟩ j).passed) :
    y ∈ (s.session j).passed ∨ (j = i ∧ y = x) := by
  by_cases same : j = i
  · subst same
    rw [Function.update_self] at passed
    rcases List.mem_append.mp passed with before | last
    · exact .inl before
    · exact .inr ⟨rfl, List.mem_singleton.mp last⟩
  · rw [Function.update_of_ne same] at passed
    exact .inl passed

end Sessions

namespace SessionsInvariant

/-- A session on the ground stops, and what it has done to the rows is no harm to the others. -/
theorem stop (inv : SessionsInvariant c e version columns flight s) (grounded : flight i = none)
    (pending : (s.session i).pending = x :: rest) (notOpen : ¬ x.Opens e) {error : ViewError}
    (stale : x.Closes e → error = x.stale) (sameColumns : (db e.table).columns = (s.db e.table).columns)
    (change : Record → Record) (rows : (db e.table).rows = (s.db e.table).rows.map change)
    (follows : ∀ record ∈ (s.db e.table).rows, Record.Follows e version record (change record)) :
    SessionsInvariant c e version columns flight
      ⟨db, Function.update s.session i { s.session i with stopped := some error }⟩ where
  sameColumns := sameColumns.trans inv.sameColumns
  shared := rows ▸ inv.shared.map follows
  agrees j := by
    have agrees : (s.session j).Agrees c e version columns (db e.table).rows (flight j) := by
      refine (inv.agrees j).mono (fun close now _ awaits => ?_) fun key opening _ settled => ?_
      · exact rows ▸ awaits.map follows
      · exact rows ▸ settled.map inv.shared follows
    by_cases same : j = i
    · subst same
      simp only [Function.update_self]
      rw [grounded] at agrees ⊢
      exact agrees.stop pending notOpen stale
    · simp only [Function.update_of_ne same]
      exact agrees
  apart := inv.apart
  first j k different y passedY z passedZ := by
    rw [Sessions.passed_of_stop] at passedY passedZ
    exact inv.first j k different y passedY z passedZ

theorem pass (inv : SessionsInvariant c e version columns flight s)
    (sameColumns : (db e.table).columns = (s.db e.table).columns)
    (shared : SharedRows c e version (db e.table).rows)
    (ended : ∀ key opening, key.HasStoredKeys e → HasEnded c e version (s.db e.table).rows key opening →
      HasEnded c e version (db e.table).rows key opening)
    {next : Option (Execution × Timestamp)}
    (others : ∀ j, j ≠ i → ∀ close now, flight j = some (close, now) →
      AwaitsVersion c e version (s.db e.table).rows close.key now →
      AwaitsVersion c e version (db e.table).rows close.key now)
    (own : Session.Agrees c e version columns (db e.table).rows next
      ⟨(s.session i).passed ++ [x], rest, none⟩)
    (apart : ∀ first, next = some first → ∀ j, j ≠ i → ∀ second, flight j = some second →
      e.sameKey c first.1.key second.1.key = false)
    (fresh : x.Closes e → ∀ j, ∀ y ∈ (s.session j).passed, y.Closes e → ¬ y.SameVersion c e version x) :
    SessionsInvariant c e version columns (Function.update flight i next)
      ⟨db, Function.update s.session i ⟨(s.session i).passed ++ [x], rest, none⟩⟩ where
  sameColumns := sameColumns.trans inv.sameColumns
  shared := shared
  agrees j := by
    by_cases same : j = i
    · subst same
      simp only [Function.update_self]
      exact own
    · simp only [Function.update_of_ne same]
      exact (inv.agrees j).mono (others j same) ended
  apart j k first second different fliesJ fliesK := by
    by_cases isJ : j = i
    · subst isJ
      rw [Function.update_self] at fliesJ
      rw [Function.update_of_ne different.symm] at fliesK
      exact apart first fliesJ k different.symm second fliesK
    · rw [Function.update_of_ne isJ] at fliesJ
      by_cases isK : k = i
      · subst isK
        rw [Function.update_self] at fliesK
        rw [← Bool.not_eq_true]
        intro same
        obtain ⟨⟨-, _, closeJ⟩, -⟩ := (inv.agrees j).awaits first.1 first.2 fliesJ
        obtain ⟨⟨-, _, closeK⟩, -⟩ := own.awaits second.1 second.2 fliesK
        have back := Record.sameKey_symm closeJ.stored closeK.stored same
        rw [apart second fliesK j isJ first fliesJ] at back
        contradiction
      · rw [Function.update_of_ne isK] at fliesK
        exact inv.apart j k first second different fliesJ fliesK
  first j k different y passedY z passedZ closesY closesZ sameVersion := by
    rcases Sessions.mem_passed_of_pass passedY with beforeY | ⟨isJ, rfl⟩
    · rcases Sessions.mem_passed_of_pass passedZ with beforeZ | ⟨-, rfl⟩
      · exact inv.first j k different y beforeY z beforeZ closesY closesZ sameVersion
      · exact fresh closesZ j y beforeY closesY sameVersion
    · rcases Sessions.mem_passed_of_pass passedZ with beforeZ | ⟨isK, -⟩
      · obtain ⟨_, _, closeZ, -⟩ := (inv.agrees k).ended z beforeZ closesZ
        obtain ⟨_, _, closeY, -⟩ := own.ended y (by simp) closesY
        exact fresh closesY k z beforeZ closesZ (Execution.SameVersion.symm closeY.stored closeZ.stored
          sameVersion)
      · exact different (isJ.trans isK.symm)

theorem step_close (inv : SessionsInvariant c e version columns flight s) (versioned : e.IsVersioned version)
    (hasColumns : e.HasColumns) (known : ∀ a ∈ e.scalars, a.columnName ∈ columns)
    (running : (s.session i).stopped = none) (grounded : flight i = none)
    (pending : (s.session i).pending = x :: rest) {opening now : Timestamp}
    (close : x.IsClose e version opening now) (next : Option (Execution × Timestamp))
    (lands : next = none → PlannedExecutions c e version columns rest)
    (flies : ∀ first, next = some first → first = (x, now) ∧ ∃ y more, rest = y :: more ∧
      y.IsSuccessor c e version columns x now ∧ PlannedExecutions c e version columns more) :
    ∃ flight, SessionsInvariant c e version columns flight (s.step c i) := by
  have finds := close.finds (c := c) versioned inv.shared
  have follows := finds.follows versioned hasColumns now
  obtain ⟨done, executed, sameColumns, rows⟩ := close.execute? (c := c) versioned hasColumns
    (inv.sameColumns.symm ▸ known)
  have outcome := Execution.outcome_of_execute? executed
  by_cases found : (s.db e.table).rows.countP
      (isEnded c version.closing.columnName e.storageKeys x.parameters) = 0
  · rw [if_pos ⟨found, close.requiresMatch⟩] at outcome
    rw [Sessions.step_of_error running pending outcome]
    exact ⟨flight, inv.stop grounded pending close.not_opens (fun _ => rfl) sameColumns _ rows follows⟩
  · rw [if_neg fun both => found both.1] at outcome
    rw [Sessions.step_of_ok running pending outcome]
    have there : ∃ record ∈ (s.db e.table).rows,
        isEnded c version.closing.columnName e.storageKeys x.parameters record = true :=
      List.countP_pos_iff.mp (Nat.pos_of_ne_zero found)
    have settled : HasEnded c e version (endWhere version now
        (isEnded c version.closing.columnName e.storageKeys x.parameters) (s.db e.table).rows) x.key opening :=
      .of_endWhere versioned hasColumns inv.shared finds there
    have fresh : ∀ j, ∀ y ∈ (s.session j).passed, y.Closes e → ¬ y.SameVersion c e version x := by
      intro j y passed closes sameVersion
      obtain ⟨_, _, closeY, settledY⟩ := (inv.agrees j).ended y passed closes
      have begins := closeY.openingValue.symm.trans (sameVersion.2.trans close.openingValue)
      cases begins
      exact finds.not_hasEnded there inv.shared close.stored closeY.stored sameVersion.1 settledY
    have keepsEnded (key : Record) (began : Timestamp) (ended : HasEnded c e version (s.db e.table).rows key
        began) : HasEnded c e version (done e.table).rows key began := rows ▸ ended.map inv.shared follows
    refine ⟨Function.update flight i next, inv.pass sameColumns (rows ▸ inv.shared.map follows)
      (fun key began _ => keepsEnded key began) (fun _ _ _ _ _ awaits => rows ▸ awaits.map follows) ?_ ?_
      fun _ => fresh⟩
    · refine (inv.agrees i).pass (fun key began _ => keepsEnded key began)
        (fun _ => ⟨⟨opening, now, close, rows ▸ settled⟩, fresh i⟩) lands ?_
      intro first later isNext
      obtain ⟨same, successor⟩ := flies _ isNext
      cases same
      obtain ⟨record, member, isOpen⟩ := there
      have different := Record.opening_ne_closing (finds.interval member isOpen)
      exact ⟨successor, ⟨different, opening, close⟩, rows ▸ .of_endWhere versioned hasColumns inv.shared close.stored
        close.ordered finds ⟨record, member, isOpen⟩⟩
    · intro first isNext j _ second flying
      obtain ⟨rfl, -⟩ := flies first isNext
      obtain ⟨⟨-, _, closeJ⟩, awaits⟩ := (inv.agrees j).awaits second.1 second.2 flying
      exact finds.not_awaits there inv.shared close.stored closeJ.stored awaits

theorem step_successor (inv : SessionsInvariant c e version columns flight s)
    (versioned : e.IsVersioned version) {close : Execution} {now : Timestamp}
    (flies : flight i = some (close, now)) :
    ∃ flight, SessionsInvariant c e version columns flight (s.step c i) := by
  obtain ⟨running, x, rest, pending, successor, planned⟩ := (inv.agrees i).flying close now flies
  obtain ⟨⟨different, opening, isClose⟩, awaits⟩ := (inv.agrees i).awaits close now flies
  obtain ⟨next, succeeds, effect⟩ := successor.effect different
  obtain ⟨done, affected, executed, sameColumns, rows⟩ := effect s.db inv.sameColumns
  have starts := isClose.starts versioned inv.shared successor.keys succeeds
  have outcome := Execution.outcome_of_execute? executed
  rw [if_neg fun both => by simp [successor.requiresMatch] at both] at outcome
  rw [Sessions.step_of_ok running pending outcome]
  have notCloses : ¬ x.Closes e := by
    rw [Execution.Closes, successor.requiresMatch]
    exact fun closes => nomatch closes.1
  have keepsEnded (key : Record) (began : Timestamp) (stored : key.HasStoredKeys e)
      (ended : HasEnded c e version (s.db e.table).rows key began) :
      HasEnded c e version (done e.table).rows key began :=
    rows ▸ ended.append inv.shared stored isClose.stored awaits starts
  refine ⟨Function.update flight i none, inv.pass (sameColumns.trans inv.sameColumns.symm)
    (rows ▸ inv.shared.append isClose.stored awaits starts) keepsEnded ?_ ?_ (fun _ isNext => nomatch isNext)
    fun closes => absurd closes notCloses⟩
  · intro j isOther other later flying otherAwaits
    refine rows ▸ otherAwaits.append fun record new => ?_
    rw [← Bool.not_eq_true]
    intro same
    obtain ⟨⟨-, _, closeJ⟩, -⟩ := (inv.agrees j).awaits other later flying
    have stored := starts.hasStoredKeys inv.shared record new
    have together := Record.sameKey_trans isClose.stored stored closeJ.stored
      (Record.sameKey_symm stored isClose.stored (starts.sameKey new)) same
    rw [inv.apart i j _ _ isOther.symm flies flying] at together
    contradiction
  · exact (inv.agrees i).pass keepsEnded (fun closes => absurd closes notCloses) (fun _ => planned)
      fun _ _ isNext => nomatch isNext

theorem step_harmless (inv : SessionsInvariant c e version columns flight s)
    (running : (s.session i).stopped = none) (grounded : flight i = none)
    (pending : (s.session i).pending = x :: rest) (harmless : x.IsHarmless c e version)
    (planned : PlannedExecutions c e version columns rest) :
    ∃ flight, SessionsInvariant c e version columns flight (s.step c i) := by
  cases executed : x.statement.execute? c x.parameters s.db with
  | none =>
      rw [Sessions.step_of_error running pending (Execution.outcome_of_refused executed)]
      exact ⟨flight, inv.stop grounded pending harmless.notOpen (fun closes => absurd closes harmless.notClose)
        rfl id (List.map_id _).symm fun record _ => .refl record⟩
  | some result =>
      obtain ⟨done, affected⟩ := result
      obtain ⟨sameColumns, change, rows, follows⟩ := harmless.follows s.db done affected executed
      have outcome := Execution.outcome_of_execute? executed
      by_cases stale : affected = 0 ∧ x.requiresMatch
      · rw [if_pos stale] at outcome
        rw [Sessions.step_of_error running pending outcome]
        exact ⟨flight, inv.stop grounded pending harmless.notOpen (fun _ => rfl) sameColumns _ rows
          fun record _ => follows record⟩
      · rw [if_neg stale] at outcome
        rw [Sessions.step_of_ok running pending outcome]
        have keepsEnded (key : Record) (began : Timestamp)
            (ended : HasEnded c e version (s.db e.table).rows key began) :
            HasEnded c e version (done e.table).rows key began :=
          rows ▸ ended.map inv.shared fun record _ => follows record
        refine ⟨Function.update flight i none, inv.pass sameColumns
          (rows ▸ inv.shared.map fun record _ => follows record) (fun key began _ => keepsEnded key began)
          (fun _ _ _ _ _ awaits => rows ▸ awaits.map fun record _ => follows record) ?_
          (fun _ isNext => nomatch isNext) fun closes => absurd closes harmless.notClose⟩
        exact (inv.agrees i).pass (fun key began _ => keepsEnded key began)
          (fun closes => absurd closes harmless.notClose) (fun _ => planned) fun _ _ isNext => nomatch isNext

theorem step (versioned : e.IsVersioned version) (hasColumns : e.HasColumns)
    (known : ∀ a ∈ e.scalars, a.columnName ∈ columns) (s : Sessions ι) (i : ι)
    (inv : ∃ flight, SessionsInvariant c e version columns flight s) :
    ∃ flight, SessionsInvariant c e version columns flight (s.step c i) := by
  obtain ⟨flight, inv⟩ := inv
  cases stopped : (s.session i).stopped with
  | some error =>
      rw [Sessions.step_of_stopped stopped]
      exact ⟨flight, inv⟩
  | none =>
      cases flies : flight i with
      | some first => exact inv.step_successor versioned flies
      | none =>
          have planned := (inv.agrees i).grounded flies stopped
          generalize pending : (s.session i).pending = executions at planned
          cases planned with
          | nil =>
              rw [Sessions.step_of_done pending]
              exact ⟨flight, inv⟩
          | @version x y opening now rest close successor planned =>
              refine inv.step_close versioned hasColumns known stopped flies pending close
                (some (x, now)) (by simp) ?_
              rintro _ ⟨⟩
              exact ⟨rfl, y, rest, rfl, successor, planned⟩
          | removal close planned =>
              exact inv.step_close versioned hasColumns known stopped flies pending close
                none (fun _ => planned) (by simp)
          | harmless harmless planned => exact inv.step_harmless stopped flies pending harmless planned

/-- What holds of the sessions when they start holds after any steps in any order. -/
theorem run (versioned : e.IsVersioned version) (hasColumns : e.HasColumns)
    (known : ∀ a ∈ e.scalars, a.columnName ∈ columns)
    (inv : SessionsInvariant c e version columns flight s) (schedule : List ι) :
    ∃ flight, SessionsInvariant c e version columns flight (s.run c schedule) :=
  Sessions.run_preserves (step versioned hasColumns known) schedule ⟨flight, inv⟩

omit [DecidableEq ι] in
theorem start {executions : ι → List Execution} {db : Database} (sameColumns : (db e.table).columns = columns)
    (shared : SharedRows c e version (db e.table).rows)
    (planned : ∀ i, PlannedExecutions c e version columns (executions i)) :
    SessionsInvariant c e version columns (fun _ => none) (Sessions.start db executions) where
  sameColumns := sameColumns
  shared := shared
  agrees i := {
    grounded := fun _ _ => planned i
    flying := fun _ _ flies => nomatch flies
    awaits := fun _ _ flies => nomatch flies
    ended := fun _ passed => nomatch passed
    once := .nil
    halted := fun _ stopped => nomatch stopped }
  apart _ _ _ _ _ flies := nomatch flies
  first _ _ _ _ passed := nomatch passed

end SessionsInvariant

end ViewEngine
