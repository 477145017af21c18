import Mathlib.Data.List.Pairwise
import ViewEngine.Proofs.Versions.Execution

/-!
The rows of a table that several sessions write versions to. Between the end of a version and the start
of the next one there is no open version of the row, so what holds of the rows is stated together with
the versions that are still to be started.
-/

namespace ViewEngine

open Sql

variable {c : Collation} {e : Entity} {version : VersionColumns}

/-- A row whose identity can be compared. -/
def Record.HasStoredKeys (e : Entity) (record : Record) : Prop :=
  ∀ a ∈ e.identityKeys, (record a.columnName).isStored = true

namespace Record

variable {a b d : Record}

theorem sameKey_symm (first : a.HasStoredKeys e) (second : b.HasStoredKeys e)
    (same : e.sameKey c a b = true) : e.sameKey c b a = true := by
  rw [sameKey_iff] at *
  intro key member
  obtain ⟨known, other, equal⟩ := Collation.equal_holds_iff.mp (same key member)
  exact Collation.equal_holds_iff.mpr
    ⟨other, known, c.order_symm (first key member) (second key member) equal⟩

theorem sameKey_trans (first : a.HasStoredKeys e) (second : b.HasStoredKeys e)
    (third : d.HasStoredKeys e) (same : e.sameKey c a b = true) (further : e.sameKey c b d = true) :
    e.sameKey c a d = true := by
  rw [sameKey_iff] at *
  intro key member
  obtain ⟨known, -, equal⟩ := Collation.equal_holds_iff.mp (same key member)
  obtain ⟨-, other, again⟩ := Collation.equal_holds_iff.mp (further key member)
  exact Collation.equal_holds_iff.mpr ⟨known, other,
    c.order_trans (first key member) (second key member) (third key member) equal again⟩

def IsVersionOf (c : Collation) (e : Entity) (version : VersionColumns) (record key : Record)
    (opening : Timestamp) : Prop :=
  e.sameKey c record key = true ∧ ∃ i, record.interval? version = some i ∧ i.opening = opening

/-- A row after a change that leaves its key and its opening alone, and does not open it again. -/
structure Follows (e : Entity) (version : VersionColumns) (before after : Record) : Prop where
  keys : ∀ a ∈ e.identityKeys, after a.columnName = before a.columnName
  interval : ∀ i, before.interval? version = some i → ∃ j, after.interval? version = some j ∧
    j.opening = i.opening ∧ (j.closing = none → i.closing = none)

theorem Follows.hasStoredKeys (follows : Follows e version a b) (stored : a.HasStoredKeys e) :
    b.HasStoredKeys e := by
  intro key member
  rw [follows.keys key member]
  exact stored key member

theorem Follows.sameKey_left (follows : Follows e version a b) (other : Record) :
    e.sameKey c b other = e.sameKey c a other :=
  sameKey_congr_left follows.keys other

theorem Follows.sameKey_right (follows : Follows e version a b) (other : Record) :
    e.sameKey c other b = e.sameKey c other a :=
  sameKey_congr_right follows.keys other

theorem Follows.isVersionOf {key : Record} {opening : Timestamp} (follows : Follows e version a b)
    (is : a.IsVersionOf c e version key opening) : b.IsVersionOf c e version key opening := by
  obtain ⟨same, i, dated, begins⟩ := is
  obtain ⟨j, redated, sameOpening, -⟩ := follows.interval i dated
  exact ⟨follows.sameKey_left key ▸ same, j, redated, sameOpening.trans begins⟩

end Record

/-- The rows of a table of versions: of the versions of one row no two begin at one instant, and the
open one is the latest. -/
structure SharedRows (c : Collation) (e : Entity) (version : VersionColumns) (rows : List Record) :
    Prop where
  keyed : ∀ record ∈ rows, record.HasStoredKeys e
  dated : ∀ record ∈ rows, ∃ i, record.interval? version = some i
  unique : rows.Pairwise fun a b => e.sameKey c a b = true →
    ∀ i j, a.interval? version = some i → b.interval? version = some j → i.opening ≠ j.opening
  latest : ∀ a ∈ rows, ∀ b ∈ rows, e.sameKey c a b = true →
    ∀ opening j, a.interval? version = some ⟨opening, none⟩ → b.interval? version = some j →
      j.opening ≤ opening

/-- All versions of the row with a key have ended, before an instant at which the next one begins. -/
def AwaitsVersion (c : Collation) (e : Entity) (version : VersionColumns) (rows : List Record)
    (key : Record) (now : Timestamp) : Prop :=
  ∀ record ∈ rows, e.sameKey c record key = true →
    ∃ i, record.interval? version = some i ∧ i.closing ≠ none ∧ i.opening < now

/-- There is the version of the row with a key that begins at an instant, and it has ended. -/
structure HasEnded (c : Collation) (e : Entity) (version : VersionColumns) (rows : List Record)
    (key : Record) (opening : Timestamp) : Prop where
  there : ∃ record ∈ rows, record.IsVersionOf c e version key opening
  ended : ∀ record ∈ rows, record.IsVersionOf c e version key opening →
    ∀ i, record.interval? version = some i → i.closing ≠ none

section Changed

variable {rows : List Record} {change : Record → Record} {key : Record} {opening now : Timestamp}

theorem SharedRows.map (shared : SharedRows c e version rows)
    (follows : ∀ record ∈ rows, Record.Follows e version record (change record)) :
    SharedRows c e version (rows.map change) where
  keyed := by
    rw [List.forall_mem_map]
    exact fun record member => (follows record member).hasStoredKeys (shared.keyed record member)
  dated := by
    rw [List.forall_mem_map]
    intro record member
    obtain ⟨i, dated⟩ := shared.dated record member
    obtain ⟨j, redated, -⟩ := (follows record member).interval i dated
    exact ⟨j, redated⟩
  unique := by
    rw [List.pairwise_map]
    refine shared.unique.imp_of_mem fun {a b} first second apart same i j datedA datedB => ?_
    obtain ⟨i', earlierA⟩ := shared.dated a first
    obtain ⟨j', earlierB⟩ := shared.dated b second
    obtain ⟨_, redatedA, openingA, -⟩ := (follows a first).interval i' earlierA
    obtain ⟨_, redatedB, openingB, -⟩ := (follows b second).interval j' earlierB
    cases datedA.symm.trans redatedA
    cases datedB.symm.trans redatedB
    rw [openingA, openingB]
    rw [(follows a first).sameKey_left, (follows b second).sameKey_right] at same
    exact apart same i' j' earlierA earlierB
  latest := by
    simp only [List.forall_mem_map]
    intro a first b second same opening j isOpen datedB
    obtain ⟨i', earlierA⟩ := shared.dated a first
    obtain ⟨j', earlierB⟩ := shared.dated b second
    obtain ⟨_, redatedA, openingA, reopened⟩ := (follows a first).interval i' earlierA
    obtain ⟨_, redatedB, openingB, -⟩ := (follows b second).interval j' earlierB
    cases isOpen.symm.trans redatedA
    cases datedB.symm.trans redatedB
    rw [(follows a first).sameKey_left, (follows b second).sameKey_right] at same
    have wasOpen : i' = ⟨opening, none⟩ := by
      cases i'
      simp only [Interval.mk.injEq]
      exact ⟨openingA.symm, reopened rfl⟩
    rw [openingB]
    exact shared.latest a first b second same opening j' (wasOpen ▸ earlierA) earlierB

theorem AwaitsVersion.map (awaits : AwaitsVersion c e version rows key now)
    (follows : ∀ record ∈ rows, Record.Follows e version record (change record)) :
    AwaitsVersion c e version (rows.map change) key now := by
  rw [AwaitsVersion, List.forall_mem_map]
  intro record member same
  rw [(follows record member).sameKey_left] at same
  obtain ⟨i, dated, ended, earlier⟩ := awaits record member same
  obtain ⟨j, redated, sameOpening, reopened⟩ := (follows record member).interval i dated
  exact ⟨j, redated, fun isOpen => ended (reopened isOpen), sameOpening ▸ earlier⟩

theorem HasEnded.map (shared : SharedRows c e version rows)
    (settled : HasEnded c e version rows key opening)
    (follows : ∀ record ∈ rows, Record.Follows e version record (change record)) :
    HasEnded c e version (rows.map change) key opening where
  there := by
    obtain ⟨record, member, is⟩ := settled.there
    exact ⟨change record, List.mem_map_of_mem member, (follows record member).isVersionOf is⟩
  ended := by
    rw [List.forall_mem_map]
    rintro record member ⟨same, j, redated, begins⟩ _ again
    obtain ⟨i, dated⟩ := shared.dated record member
    obtain ⟨_, found, sameOpening, reopened⟩ := (follows record member).interval i dated
    cases redated.symm.trans found
    cases again.symm.trans found
    rw [(follows record member).sameKey_left] at same
    exact fun isOpen => settled.ended record member ⟨same, i, dated, sameOpening.symm.trans begins⟩ i dated
      (reopened isOpen)

end Changed

section Ending

variable {rows : List Record} {key : Record} {opening now : Timestamp} {test : Record → Bool}

theorem Record.Follows.refl (record : Record) : record.Follows e version record :=
  ⟨fun _ _ => rfl, fun i dated => ⟨i, dated, rfl, id⟩⟩

theorem Record.interval?_ended_of_dated (different : version.opening.columnName ≠ version.closing.columnName)
    {record : Record} {i : Interval} (dated : record.interval? version = some i) :
    (record.ended version now).interval? version = some ⟨i.opening, some now⟩ := by
  have begins := interval?_opening dated
  simp only [interval?, ended, Function.update_of_ne different, Function.update_self, begins]

theorem Record.Follows.ended (versioned : e.IsVersioned version) (hasColumns : e.HasColumns)
    (different : version.opening.columnName ≠ version.closing.columnName) (record : Record) :
    record.Follows e version (record.ended version now) where
  keys _ member := Record.ended_key versioned hasColumns member record
  interval i dated := ⟨_, Record.interval?_ended_of_dated different dated, rfl, by simp⟩

def endWhere (version : VersionColumns) (now : Timestamp) (test : Record → Bool) (rows : List Record) :
    List Record :=
  rows.map fun record => if test record then record.ended version now else record

theorem Record.Follows.endWhere (versioned : e.IsVersioned version) (hasColumns : e.HasColumns)
    {record : Record} (isOpen : test record = true →
      ∃ opening, record.interval? version = some ⟨opening, none⟩) :
    record.Follows e version (if test record then record.ended version now else record) := by
  split
  next found =>
    obtain ⟨_, isOpen⟩ := isOpen found
    exact .ended versioned hasColumns (Record.opening_ne_closing isOpen) record
  next => exact .refl record

def FindsOpen (c : Collation) (e : Entity) (version : VersionColumns) (rows : List Record)
    (test : Record → Bool) (key : Record) (opening : Timestamp) : Prop :=
  ∀ record ∈ rows, test record = true ↔
    record.IsVersionOf c e version key opening ∧ (record version.closing.columnName).isNull = true

theorem FindsOpen.interval {record : Record} (finds : FindsOpen c e version rows test key opening)
    (member : record ∈ rows) (found : test record = true) :
    record.interval? version = some ⟨opening, none⟩ := by
  obtain ⟨⟨-, i, dated, rfl⟩, null⟩ := (finds record member).mp found
  exact Record.interval?_of_isNull dated null

theorem FindsOpen.follows (finds : FindsOpen c e version rows test key opening)
    (versioned : e.IsVersioned version) (hasColumns : e.HasColumns) (now : Timestamp) : ∀ record ∈ rows,
      record.Follows e version (if test record then record.ended version now else record) :=
  fun _ member => .endWhere versioned hasColumns fun found => ⟨opening, finds.interval member found⟩

theorem HasEnded.of_endWhere (versioned : e.IsVersioned version) (hasColumns : e.HasColumns)
    (shared : SharedRows c e version rows) (finds : FindsOpen c e version rows test key opening)
    (there : ∃ record ∈ rows, test record = true) :
    HasEnded c e version (endWhere version now test rows) key opening where
  there := by
    obtain ⟨record, member, found⟩ := there
    exact ⟨_, List.mem_map_of_mem member, (finds.follows versioned hasColumns now record member).isVersionOf
      ((finds record member).mp found).1⟩
  ended := by
    rw [endWhere, List.forall_mem_map]
    rintro record member is i redated isOpen
    obtain ⟨earlier, dated⟩ := shared.dated record member
    cases found : test record with
    | true =>
        have different := Record.opening_ne_closing (finds.interval member found)
        rw [if_pos found, Record.interval?_ended_of_dated different dated] at redated
        cases redated
        contradiction
    | false =>
        rw [found, if_neg Bool.false_ne_true] at is redated
        have null := (Record.interval?_closing redated).mpr isOpen
        rw [(finds record member).mpr ⟨is, null⟩] at found
        contradiction

theorem AwaitsVersion.of_endWhere (versioned : e.IsVersioned version) (hasColumns : e.HasColumns)
    (shared : SharedRows c e version rows) (stored : key.HasStoredKeys e) (ordered : opening < now)
    (finds : FindsOpen c e version rows test key opening) (there : ∃ record ∈ rows, test record = true) :
    AwaitsVersion c e version (endWhere version now test rows) key now := by
  obtain ⟨current, currentMember, currentFound⟩ := there
  have currentKey := ((finds current currentMember).mp currentFound).1.1
  have currentOpen := finds.interval currentMember currentFound
  have different := Record.opening_ne_closing currentOpen
  rw [AwaitsVersion, endWhere, List.forall_mem_map]
  intro record member same
  rw [(finds.follows versioned hasColumns now record member).sameKey_left] at same
  have storedRecord := shared.keyed record member
  have storedCurrent := shared.keyed current currentMember
  have together : e.sameKey c current record = true := Record.sameKey_trans storedCurrent stored storedRecord
    currentKey (Record.sameKey_symm storedRecord stored same)
  obtain ⟨j, dated⟩ := shared.dated record member
  have notLater := shared.latest current currentMember record member together opening j currentOpen dated
  cases found : test record with
  | true =>
      rw [if_pos rfl]
      exact ⟨_, Record.interval?_ended_of_dated different dated, by simp, lt_of_le_of_lt notLater ordered⟩
  | false =>
      rw [if_neg Bool.false_ne_true]
      refine ⟨j, dated, fun isOpen => ?_, lt_of_le_of_lt notLater ordered⟩
      have null := (Record.interval?_closing dated).mpr isOpen
      have notEarlier := shared.latest record member current currentMember
        (Record.sameKey_symm storedCurrent storedRecord together) j.opening _
        (Record.interval?_of_isNull dated null) currentOpen
      rw [(finds record member).mpr ⟨⟨same, j, dated, le_antisymm notLater notEarlier⟩, null⟩] at found
      contradiction

theorem FindsOpen.not_awaits (finds : FindsOpen c e version rows test key opening)
    (there : ∃ record ∈ rows, test record = true) (shared : SharedRows c e version rows)
    (stored : key.HasStoredKeys e) {other : Record} (otherStored : other.HasStoredKeys e)
    {later : Timestamp} (awaits : AwaitsVersion c e version rows other later) :
    e.sameKey c key other = false := by
  rw [← Bool.not_eq_true]
  intro same
  obtain ⟨record, member, found⟩ := there
  obtain ⟨i, dated, ended, -⟩ := awaits record member (Record.sameKey_trans (shared.keyed record member)
    stored otherStored ((finds record member).mp found).1.1 same)
  cases dated.symm.trans (finds.interval member found)
  contradiction

theorem FindsOpen.not_hasEnded (finds : FindsOpen c e version rows test key opening)
    (there : ∃ record ∈ rows, test record = true) (shared : SharedRows c e version rows)
    (stored : key.HasStoredKeys e) {other : Record} (otherStored : other.HasStoredKeys e)
    (same : e.sameKey c other key = true) : ¬ HasEnded c e version rows other opening := by
  intro settled
  obtain ⟨record, member, found⟩ := there
  have isOpen := finds.interval member found
  have sameKey := Record.sameKey_trans (shared.keyed record member) stored otherStored
    ((finds record member).mp found).1.1 (Record.sameKey_symm otherStored stored same)
  exact settled.ended record member ⟨sameKey, _, isOpen, rfl⟩ _ isOpen rfl

end Ending

section Starting

variable {rows added : List Record} {key other : Record} {opening now later : Timestamp}

structure Starts (c : Collation) (e : Entity) (version : VersionColumns) (rows : List Record)
    (key : Record) (now : Timestamp) (added : List Record) : Prop where
  single : added.length ≤ 1
  interval : ∀ record ∈ added, record.interval? version = some ⟨now, none⟩
  keys : ∀ record ∈ added, ∃ former ∈ rows, e.sameKey c former key = true ∧
    ∀ a ∈ e.identityKeys, record a.columnName = former a.columnName

theorem Starts.hasStoredKeys (starts : Starts c e version rows key now added)
    (shared : SharedRows c e version rows) : ∀ record ∈ added, record.HasStoredKeys e := by
  intro record member a isKey
  obtain ⟨former, formerMember, -, keys⟩ := starts.keys record member
  rw [keys a isKey]
  exact shared.keyed former formerMember a isKey

theorem Starts.sameKey (starts : Starts c e version rows key now added) {record : Record}
    (member : record ∈ added) : e.sameKey c record key = true := by
  obtain ⟨former, -, same, keys⟩ := starts.keys record member
  rwa [Record.sameKey_congr_left keys]

/-- A row of the same key as a new one has ended, before the new one begins. -/
theorem Starts.awaits (starts : Starts c e version rows key now added)
    (shared : SharedRows c e version rows) (stored : key.HasStoredKeys e)
    (awaits : AwaitsVersion c e version rows key now) {record new : Record} (member : record ∈ rows)
    (isNew : new ∈ added) (same : e.sameKey c record new = true) :
    ∃ i, record.interval? version = some i ∧ i.closing ≠ none ∧ i.opening < now :=
  awaits record member (Record.sameKey_trans (shared.keyed record member)
    (starts.hasStoredKeys shared new isNew) stored same (starts.sameKey isNew))

theorem SharedRows.append (shared : SharedRows c e version rows) (stored : key.HasStoredKeys e)
    (awaits : AwaitsVersion c e version rows key now)
    (starts : Starts c e version rows key now added) : SharedRows c e version (rows ++ added) where
  keyed record member := by
    rcases List.mem_append.mp member with former | new
    · exact shared.keyed record former
    · exact starts.hasStoredKeys shared record new
  dated record member := by
    rcases List.mem_append.mp member with former | new
    · exact shared.dated record former
    · exact ⟨_, starts.interval record new⟩
  unique := by
    refine List.pairwise_append.mpr ⟨shared.unique, ?_, ?_⟩
    · match added, starts.single with
      | [], _ => exact .nil
      | [_], _ => exact List.pairwise_singleton ..
    · intro record member new isNew same i j dated begun
      obtain ⟨i', found, -, earlier⟩ := starts.awaits shared stored awaits member isNew same
      cases dated.symm.trans found
      cases begun.symm.trans (starts.interval new isNew)
      exact ne_of_lt earlier
  latest := by
    intro a first b second same start j isOpen dated
    rcases List.mem_append.mp first with former | new
    · rcases List.mem_append.mp second with formerB | newB
      · exact shared.latest a former b formerB same start j isOpen dated
      · obtain ⟨i, found, ended, -⟩ := starts.awaits shared stored awaits former newB same
        cases isOpen.symm.trans found
        contradiction
    · cases isOpen.symm.trans (starts.interval a new)
      rcases List.mem_append.mp second with formerB | newB
      · have back := Record.sameKey_symm (starts.hasStoredKeys shared a new) (shared.keyed b formerB) same
        obtain ⟨i, found, -, earlier⟩ := starts.awaits shared stored awaits formerB new back
        cases dated.symm.trans found
        exact earlier.le
      · cases dated.symm.trans (starts.interval b newB)
        exact le_refl _

/-- The start of a version of one row leaves the other rows waiting for theirs. -/
theorem AwaitsVersion.append (awaits : AwaitsVersion c e version rows other later)
    (different : ∀ record ∈ added, e.sameKey c record other = false) :
    AwaitsVersion c e version (rows ++ added) other later := by
  intro record member same
  rcases List.mem_append.mp member with former | new
  · exact awaits record former same
  · rw [different record new] at same
    contradiction

theorem HasEnded.append (settled : HasEnded c e version rows other opening)
    (shared : SharedRows c e version rows) (stored : other.HasStoredKeys e)
    (storedKey : key.HasStoredKeys e) (awaits : AwaitsVersion c e version rows key now)
    (starts : Starts c e version rows key now added) :
    HasEnded c e version (rows ++ added) other opening where
  there := by
    obtain ⟨record, member, is⟩ := settled.there
    exact ⟨record, List.mem_append_left _ member, is⟩
  ended := by
    intro record member is i dated
    rcases List.mem_append.mp member with former | new
    · exact settled.ended record former is i dated
    · obtain ⟨former, formerMember, formerKey, i', formerDated, formerBegins⟩ := settled.there
      obtain ⟨same, j, redated, begins⟩ := is
      have together : e.sameKey c former record = true := Record.sameKey_trans
        (shared.keyed former formerMember) stored (starts.hasStoredKeys shared record new) formerKey
        (Record.sameKey_symm (starts.hasStoredKeys shared record new) stored same)
      obtain ⟨_, found, -, earlier⟩ := starts.awaits shared storedKey awaits formerMember new together
      cases formerDated.symm.trans found
      cases redated.symm.trans (starts.interval record new)
      rw [formerBegins, ← begins] at earlier
      exact absurd earlier (lt_irrefl _)

end Starting

instance : Std.Symm (Record.Apart c e version) where
  symm _ _ apart := apart.symm

section Single

variable {rows : List Record} {key : Record} {opening : Timestamp} {test : Record → Bool}

theorem filter_length_le_one {α : Type} {test : α → Bool} {items : List α}
    (apart : items.Pairwise fun a b => test a = true → test b ≠ true) : (items.filter test).length ≤ 1 := by
  have separate : (items.filter test).Pairwise fun a b => test a = true → test b ≠ true :=
    apart.sublist List.filter_sublist
  match found : items.filter test, separate with
  | [], _ => exact Nat.zero_le _
  | [_], _ => exact le_refl _
  | a :: b :: _, separate =>
      have member (x : α) (inside : x ∈ items.filter test) : test x = true := (List.mem_filter.mp inside).2
      have first := member a (by simp [found])
      have second := member b (by simp [found])
      exact absurd second ((List.pairwise_cons.mp separate).1 b (List.mem_cons_self ..) first)

theorem SharedRows.single_version (shared : SharedRows c e version rows) (stored : key.HasStoredKeys e)
    (finds : ∀ record ∈ rows, test record = true → record.IsVersionOf c e version key opening) :
    (rows.filter test).length ≤ 1 := by
  refine filter_length_le_one (shared.unique.imp_of_mem fun {a b} first second apart foundA foundB => ?_)
  obtain ⟨sameA, i, datedA, beginsA⟩ := finds a first foundA
  obtain ⟨sameB, j, datedB, beginsB⟩ := finds b second foundB
  have together := Record.sameKey_trans (shared.keyed a first) stored (shared.keyed b second) sameA
    (Record.sameKey_symm (shared.keyed b second) stored sameB)
  exact apart together i j datedA datedB (beginsA.trans beginsB.symm)

theorem SharedRows.single_open (shared : SharedRows c e version rows) (stored : key.HasStoredKeys e) :
    (rows.filter fun record =>
      e.sameKey c record key && (record version.closing.columnName).isNull).length ≤ 1 := by
  refine filter_length_le_one (shared.unique.imp_of_mem fun {a b} first second apart foundA foundB => ?_)
  simp only [Bool.and_eq_true] at foundA foundB
  obtain ⟨i, datedA⟩ := shared.dated a first
  obtain ⟨j, datedB⟩ := shared.dated b second
  have openA := Record.interval?_of_isNull datedA foundA.2
  have openB := Record.interval?_of_isNull datedB foundB.2
  have together := Record.sameKey_trans (shared.keyed a first) stored (shared.keyed b second) foundA.1
    (Record.sameKey_symm (shared.keyed b second) stored foundB.1)
  have back := Record.sameKey_symm (shared.keyed a first) (shared.keyed b second) together
  exact apart together _ _ openA openB (le_antisymm
    (shared.latest b second a first back _ _ openB openA)
    (shared.latest a first b second together _ _ openA openB))

theorem SharedRows.of_versions (versions : Versions c e version rows)
    (keyed : ∀ record ∈ rows, record.HasStoredKeys e) : SharedRows c e version rows where
  keyed := keyed
  dated record member := by
    obtain ⟨i, dated, -⟩ := versions.dated record member
    exact ⟨i, dated⟩
  unique := by
    refine versions.apart.imp_of_mem fun {a b} first second apart same i j datedA datedB begins => ?_
    obtain ⟨_, foundA, nonemptyA⟩ := versions.dated a first
    obtain ⟨_, foundB, nonemptyB⟩ := versions.dated b second
    cases datedA.symm.trans foundA
    cases datedB.symm.trans foundB
    exact apart (.inl same) i j datedA datedB i.opening nonemptyA.covers_opening
      (begins ▸ nonemptyB.covers_opening)
  latest a first b second same opening j isOpen dated := by
    rw [← not_lt]
    intro later
    have different : a ≠ b := by
      rintro rfl
      cases isOpen.symm.trans dated
      exact lt_irrefl _ later
    have apart : Record.Apart c e version a b :=
      versions.apart.forall first second different
    obtain ⟨_, found, nonempty⟩ := versions.dated b second
    cases dated.symm.trans found
    exact apart (.inl same) _ j isOpen dated j.opening ⟨later.le, by simp⟩ nonempty.covers_opening

end Single

end ViewEngine
