import ViewEngine.Proofs.Versions.Successor

namespace ViewEngine

open Sql Planning

variable {c : Collation} {e : Entity} {version : VersionColumns}

def Record.Apart (c : Collation) (e : Entity) (version : VersionColumns) (a b : Record) : Prop :=
  (e.sameKey c a b = true ∨ e.sameKey c b a = true) →
    ∀ i j, a.interval? version = some i → b.interval? version = some j → i.Disjoint j

theorem Record.Apart.symm {a b : Record} (apart : Record.Apart c e version a b) :
    Record.Apart c e version b a :=
  fun same i j first second => (apart same.symm j i second first).symm

/-- The rows of a table, each valid in an interval, and at no instant two with the same key. -/
structure Versions (c : Collation) (e : Entity) (version : VersionColumns) (rows : List Record) :
    Prop where
  dated : ∀ record ∈ rows, ∃ i, record.interval? version = some i ∧ i.Nonempty
  apart : rows.Pairwise (Record.Apart c e version)

/-- A version of a row that is still valid, with keys by which it is found. -/
structure Record.IsOpen (c : Collation) (e : Entity) (version : VersionColumns) (opening : Timestamp)
    (record : Record) : Prop where
  interval : record.interval? version = some ⟨opening, none⟩
  keyed : e.sameKey c record record = true

def Record.ended (version : VersionColumns) (now : Timestamp) (record : Record) : Record :=
  Function.update record version.closing.columnName (.timestamp now)

/-- What the end of a version, and the start of the next one if there is one, leave of the rows. -/
structure Keeps (c : Collation) (e : Entity) (version : VersionColumns) (now : Timestamp)
    (old : Record) (next : Option Record) (before after : List Record) : Prop where
  versions : Versions c e version after
  current : after.filter (fun record =>
    e.sameKey c record old && (record version.closing.columnName).isNull) = next.toList
  others : after.filter (!e.sameKey c · old) = before.filter (!e.sameKey c · old)
  past : ∀ t < now, List.Forall₂ (fun a b => ∀ column ≠ version.closing.columnName, b column = a column)
    (before.filter (e.isRead c (some t))) (after.filter (e.isRead c (some t)))
  present : ∀ t, now ≤ t → after.filter (fun record =>
    e.sameKey c record old && e.isRead c (some t) record) = next.toList

namespace Record

variable {a b old : Record} {opening now : Timestamp}

theorem interval?_ended (different : version.opening.columnName ≠ version.closing.columnName)
    (dated : old.interval? version = some ⟨opening, none⟩) :
    (old.ended version now).interval? version = some ⟨opening, some now⟩ := by
  have begins := interval?_opening dated
  simp only [interval?, ended, Function.update_of_ne different, Function.update_self, begins]

/-- The identity of a row is not in the column of its end. -/
theorem ended_key {key : Attribute} (versioned : e.IsVersioned version) (hasColumns : e.HasColumns)
    (member : key ∈ e.identityKeys) (record : Record) :
    record.ended version now key.columnName = record key.columnName := by
  refine Function.update_of_ne (fun same => ?_) _ _
  have equal := hasColumns.eq_of_columnName (hasColumns.keys key member) versioned.closing same
  have noVersion := (Entity.mem_identityKeys_iff.mp member).2.2
  rw [equal, versioned.isVersionAttribute_iff.mpr (.inr rfl)] at noVersion
  contradiction

theorem sameKey_iff : e.sameKey c a b = true ↔
    ∀ key ∈ e.identityKeys, (c.equal (a key.columnName) (b key.columnName)).holds = true :=
  List.all_eq_true

/-- Rows with the same values in the identity columns have the same key. -/
theorem sameKey_congr_left (same : ∀ key ∈ e.identityKeys, a key.columnName = b key.columnName)
    (other : Record) : e.sameKey c a other = e.sameKey c b other := by
  rw [Bool.eq_iff_iff, sameKey_iff, sameKey_iff]
  exact forall₂_congr fun key member => by rw [same key member]

theorem sameKey_congr_right (same : ∀ key ∈ e.identityKeys, a key.columnName = b key.columnName)
    (other : Record) : e.sameKey c other a = e.sameKey c other b := by
  rw [Bool.eq_iff_iff, sameKey_iff, sameKey_iff]
  exact forall₂_congr fun key member => by rw [same key member]

end Record

namespace Versions

variable {before after : List Record} {old : Record} {opening now : Timestamp}

theorem apart_of_mem (versions : Versions c e version (before ++ old :: after)) {record : Record}
    (member : record ∈ before ∨ record ∈ after) : Record.Apart c e version record old := by
  obtain ⟨-, later, crossing⟩ := List.pairwise_append.mp versions.apart
  rcases member with earlier | following
  · exact crossing record earlier old (List.mem_cons_self ..)
  · exact ((List.pairwise_cons.mp later).1 record following).symm

theorem dated_of_mem (versions : Versions c e version (before ++ old :: after)) {record : Record}
    (member : record ∈ before ∨ record ∈ after) :
    ∃ i, record.interval? version = some i ∧ i.Nonempty := by
  refine versions.dated record ?_
  rcases member with earlier | following
  · exact List.mem_append_left _ earlier
  · exact List.mem_append_right _ (List.mem_cons_of_mem _ following)

/-- No other version of a row covers an instant after the start of its open version. -/
theorem not_covers_of_sameKey (versions : Versions c e version (before ++ old :: after))
    (isOpen : old.interval? version = some ⟨opening, none⟩) {record : Record} {i : Interval}
    {t : Timestamp} (member : record ∈ before ∨ record ∈ after) (same : e.sameKey c record old = true)
    (dated : record.interval? version = some i) (later : opening ≤ t) : ¬ i.Covers t := fun covered =>
  versions.apart_of_mem member (.inl same) i _ dated isOpen t covered ⟨later, by simp⟩

/-- What can follow the end of a version: a version of the same row that begins at that time. -/
structure Succeeds (e : Entity) (version : VersionColumns) (now : Timestamp) (old next : Record) : Prop where
  interval : next.interval? version = some ⟨now, none⟩
  keys : ∀ key ∈ e.identityKeys, next key.columnName = old key.columnName

end Versions

section Ending

variable {before after : List Record} {old : Record} {next : Option Record} {opening now : Timestamp}

/-- The rows after a version has been ended and the next one begun. -/
def Versions.succeeded (version : VersionColumns) (now : Timestamp) (before after : List Record)
    (old : Record) (next : Option Record) : List Record :=
  before ++ old.ended version now :: after ++ next.toList

/-- A version that has been ended meets the others no more than it did before. -/
theorem Record.Apart.of_ended (versioned : e.IsVersioned version) (hasColumns : e.HasColumns)
    (different : version.opening.columnName ≠ version.closing.columnName) {record : Record}
    (dated : old.interval? version = some ⟨opening, none⟩)
    (apart : Record.Apart c e version record old) :
    Record.Apart c e version record (old.ended version now) := by
  intro same i j first second
  rw [Record.interval?_ended different dated] at second
  cases second
  have keys : ∀ key ∈ e.identityKeys, old.ended version now key.columnName = old key.columnName :=
    fun key member => Record.ended_key versioned hasColumns member old
  rw [Record.sameKey_congr_right keys, Record.sameKey_congr_left keys] at same
  exact (apart same i _ first dated).of_ended

theorem Record.Apart.of_succeeds (ordered : opening ≤ now) {record next : Record}
    (dated : old.interval? version = some ⟨opening, none⟩)
    (succeeds : Versions.Succeeds e version now old next)
    (apart : Record.Apart c e version record old) : Record.Apart c e version record next := by
  intro same i j first second
  rw [succeeds.interval] at second
  cases second
  rw [Record.sameKey_congr_right succeeds.keys, Record.sameKey_congr_left succeeds.keys] at same
  exact (apart same i _ first dated).of_later ordered

theorem Versions.succeeded_versions (versioned : e.IsVersioned version) (hasColumns : e.HasColumns)
    (different : version.opening.columnName ≠ version.closing.columnName)
    (versions : Versions c e version (before ++ old :: after))
    (dated : old.interval? version = some ⟨opening, none⟩) (later : opening < now)
    (succeeds : ∀ record, next = some record → Versions.Succeeds e version now old record) :
    Versions c e version (Versions.succeeded version now before after old next) where
  dated record member := by
    rcases List.mem_append.mp member with kept | new
    · rcases List.mem_append.mp kept with earlier | following
      · exact versions.dated_of_mem (.inl earlier)
      · rcases List.mem_cons.mp following with rfl | following
        · refine ⟨_, Record.interval?_ended different dated, opening, le_refl _, ?_⟩
          rintro closing ⟨⟩
          exact later
        · exact versions.dated_of_mem (.inr following)
    · have succeeds := succeeds record (Option.mem_toList.mp new)
      exact ⟨_, succeeds.interval, Interval.nonempty_open now⟩
  apart := by
    have nextApart : ∀ record, record ∈ before ∨ record ∈ after → ∀ new ∈ next.toList,
        Record.Apart c e version record new := fun record member new isNext =>
      .of_succeeds later.le dated (succeeds new (Option.mem_toList.mp isNext))
        (versions.apart_of_mem member)
    have endedApart : ∀ record, record ∈ before ∨ record ∈ after →
        Record.Apart c e version record (old.ended version now) := fun record member =>
      .of_ended versioned hasColumns different dated (versions.apart_of_mem member)
    have endedNext : ∀ new ∈ next.toList,
        Record.Apart c e version (old.ended version now) new := by
      intro new isNext same i j first second
      rw [Record.interval?_ended different dated] at first
      rw [(succeeds new (Option.mem_toList.mp isNext)).interval] at second
      cases first
      cases second
      exact Interval.disjoint_ended_open opening now
    obtain ⟨beforeApart, laterApart, crossing⟩ := List.pairwise_append.mp versions.apart
    have kept : (before ++ old.ended version now :: after).Pairwise
        (Record.Apart c e version) := by
      refine List.pairwise_append.mpr ⟨beforeApart, ?_, ?_⟩
      · exact List.pairwise_cons.mpr ⟨fun record member => (endedApart record (.inr member)).symm,
          (List.pairwise_cons.mp laterApart).2⟩
      · intro record earlier other following
        rcases List.mem_cons.mp following with rfl | following
        · exact endedApart record (.inl earlier)
        · exact crossing record earlier other (List.mem_cons_of_mem _ following)
    have single : next.toList.Pairwise (Record.Apart c e version) := by
      cases next with
      | none => exact List.Pairwise.nil
      | some record => exact List.pairwise_singleton ..
    refine List.pairwise_append.mpr ⟨kept, single, ?_⟩
    intro record member new isNext
    rcases List.mem_append.mp member with earlier | following
    · exact nextApart record (.inl earlier) new isNext
    · rcases List.mem_cons.mp following with rfl | following
      · exact endedNext new isNext
      · exact nextApart record (.inr following) new isNext

theorem Versions.filter_sameKey (versions : Versions c e version (before ++ old :: after))
    (dated : old.interval? version = some ⟨opening, none⟩) (rows : List Record) (test : Record → Bool)
    (others : ∀ record ∈ rows, record ∈ before ∨ record ∈ after)
    (covers : ∀ record i, record.interval? version = some i → test record = true →
      ∃ t, opening ≤ t ∧ i.Covers t) :
    rows.filter (fun record => e.sameKey c record old && test record) = [] := by
  rw [List.filter_eq_nil_iff]
  intro record member
  simp only [Bool.and_eq_true, not_and, Bool.not_eq_true]
  intro same
  obtain ⟨i, valid, -⟩ := versions.dated_of_mem (others record member)
  rw [← Bool.not_eq_true]
  intro passes
  obtain ⟨t, later, covered⟩ := covers record i valid passes
  exact versions.not_covers_of_sameKey dated (others record member) same valid later covered

theorem Record.sameKey_ended (versioned : e.IsVersioned version) (hasColumns : e.HasColumns)
    (isOpen : old.IsOpen c e version opening) :
    e.sameKey c (old.ended version now) old = true := by
  rw [Record.sameKey_congr_left fun key member => Record.ended_key versioned hasColumns member old]
  exact isOpen.keyed

theorem Record.not_isRead_of_later (versioned : e.IsVersioned version) {record : Record} {i : Interval}
    {t : Timestamp} (dated : record.interval? version = some i) (apart : ¬ i.Covers t) :
    e.isRead c (some t) record = false := by
  rw [← Bool.not_eq_true, Entity.isRead_iff_covers versioned dated]
  exact apart

theorem Keeps.of_succeeded (versioned : e.IsVersioned version) (hasColumns : e.HasColumns)
    (different : version.opening.columnName ≠ version.closing.columnName)
    (versions : Versions c e version (before ++ old :: after))
    (isOpen : old.IsOpen c e version opening) (later : opening < now)
    (succeeds : ∀ record, next = some record → Versions.Succeeds e version now old record) :
    Keeps c e version now old next (before ++ old :: after)
      (Versions.succeeded version now before after old next) where
  versions := Versions.succeeded_versions versioned hasColumns different versions isOpen.interval later
    succeeds
  current := by
    have nothing := fun rows others => versions.filter_sameKey isOpen.interval rows
      (fun record => (record version.closing.columnName).isNull) others
      fun record i valid null =>
        ⟨max opening i.opening, le_max_left .., le_max_right ..,
          by simp [(Record.interval?_closing valid).mp null]⟩
    have ends : (old.ended version now version.closing.columnName).isNull = false := by
      simp [Record.ended, Value.isNull]
    have begins : ∀ record ∈ next.toList, (e.sameKey c record old &&
        (record version.closing.columnName).isNull) = true := by
      intro record isNext
      have succeeds := succeeds record (Option.mem_toList.mp isNext)
      rw [Record.sameKey_congr_left succeeds.keys, isOpen.keyed,
        (Record.interval?_eq_open_iff.mp succeeds.interval).2]
      rfl
    rw [Versions.succeeded, List.filter_append, List.filter_append, List.filter_cons,
      nothing before fun _ => .inl, nothing after fun _ => .inr, ends, Bool.and_false,
      List.filter_eq_self.mpr begins]
    rfl
  others := by
    have keyed : e.sameKey c (old.ended version now) old = true :=
      Record.sameKey_ended versioned hasColumns isOpen
    have dropped : next.toList.filter (!e.sameKey c · old) = [] := by
      rw [List.filter_eq_nil_iff]
      intro record isNext
      rw [Record.sameKey_congr_left (succeeds record (Option.mem_toList.mp isNext)).keys, isOpen.keyed]
      decide
    simp [Versions.succeeded, List.filter_append, keyed, isOpen.keyed, dropped]
  past t earlier := by
    have notYet : next.toList.filter (e.isRead c (some t)) = [] := by
      rw [List.filter_eq_nil_iff]
      intro record isNext
      have dated := (succeeds record (Option.mem_toList.mp isNext)).interval
      rw [Record.not_isRead_of_later versioned dated fun covered => absurd covered.1 (not_le.mpr earlier)]
      decide
    have same : e.isRead c (some t) (old.ended version now) =
        e.isRead c (some t) old := by
      rw [Bool.eq_iff_iff, Entity.isRead_iff_covers versioned isOpen.interval,
        Entity.isRead_iff_covers versioned (Record.interval?_ended different isOpen.interval)]
      simp [Interval.Covers, earlier]
    have unchanged : ∀ column ≠ version.closing.columnName,
        old.ended version now column = old column :=
      fun column other => Function.update_of_ne other _ _
    have kept : (Versions.succeeded version now before after old next).filter (e.isRead c (some t)) =
        before.filter (e.isRead c (some t)) ++
          (old.ended version now :: after).filter (e.isRead c (some t)) := by
      rw [Versions.succeeded, List.filter_append, notYet, List.append_nil, List.filter_append]
    rw [kept, List.filter_append, List.filter_cons, List.filter_cons, same]
    refine List.rel_append (List.forall₂_same.mpr fun _ _ _ _ => rfl) ?_
    split
    · exact .cons unchanged (List.forall₂_same.mpr fun _ _ _ _ => rfl)
    · exact List.forall₂_same.mpr fun _ _ _ _ => rfl
  present t started := by
    have nothing := fun rows others => versions.filter_sameKey isOpen.interval rows
      (e.isRead c (some t)) others fun record i valid reads =>
        ⟨t, le_trans later.le started, (Entity.isRead_iff_covers versioned valid t).mp reads⟩
    have past : e.isRead c (some t) (old.ended version now) = false :=
      Record.not_isRead_of_later versioned (Record.interval?_ended different isOpen.interval)
        fun covered => absurd (covered.2 now rfl) (not_lt.mpr started)
    have begins : ∀ record ∈ next.toList, (e.sameKey c record old && e.isRead c (some t) record) = true := by
      intro record isNext
      have succeeds := succeeds record (Option.mem_toList.mp isNext)
      rw [Record.sameKey_congr_left succeeds.keys, isOpen.keyed, Bool.true_and,
        Entity.isRead_iff_covers versioned succeeds.interval]
      exact ⟨started, by simp⟩
    rw [Versions.succeeded, List.filter_append, List.filter_append, List.filter_cons,
      nothing before fun _ => .inl, nothing after fun _ => .inr, past, Bool.and_false,
      List.filter_eq_self.mpr begins]
    rfl

end Ending

end ViewEngine
