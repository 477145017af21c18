import ViewEngine.Proofs.Addressing.Refused
import ViewEngine.Proofs.Addressing.Spelled
import ViewEngine.Proofs.Writing.Nodes
import ViewEngine.Proofs.Writing.Sharing

/-!
The paths that are on record as changed. Main statement: if paths with all their positions are spelled like their steps,
no two records of a row lead to one place, and each node of a row is written once.
-/

namespace ViewEngine

open Planning

/-- The properties of join columns can stand in a path. -/
def CompiledView.LinksPlain (v : CompiledView) : Prop :=
  ∀ entry ∈ v.joinPlan.entries, ∀ pair ∈ entry.subject.joinColumns,
    ∀ a ∈ (entry.sourceEntity.column? pair.source).toList ++ (entry.entity.column? pair.target).toList,
      IsStep a.property ∧ '[' ∉ a.property.toList

instance (v : CompiledView) : Decidable v.LinksPlain :=
  inferInstanceAs (Decidable (∀ entry ∈ v.joinPlan.entries, ∀ pair ∈ entry.subject.joinColumns,
    ∀ a ∈ (entry.sourceEntity.column? pair.source).toList ++ (entry.entity.column? pair.target).toList,
      IsStep a.property ∧ '[' ∉ a.property.toList))

namespace ViewRow

variable {r : ViewRow} {node property path : String} {value : Value} {v : CompiledView} {P : String → Prop}

theorem mem_changed_assign (member : path ∈ (r.assign node property value).1.changed) :
    path ∈ r.changed ∨ path = Path.child node property := by
  cases outcome : (r.assign node property value).2 with
  | ok done =>
      rw [assign_of_ok outcome] at member
      exact (Names.mem_insert.mp member).symm
  | error cause =>
      rw [assign_of_error outcome] at member
      exact .inl member

/-- What holds of the records of a row holds of them once keys have been taken over, if it holds of the join columns at
the nodes of the records and at the nodes above these. -/
theorem records_propagate (records : ∀ path ∈ r.changed, P path) (links : v.LinksPlain) (strict : Bool)
    (taken : ∀ path above name, P path → above = Path.node path ∨ above = Path.node (Path.node path) → IsStep name →
      '[' ∉ name.toList → P (Path.child above name)) :
    ∀ path ∈ (r.propagate strict v.joinPlan).1.changed, P path := by
  refine @propagate_preserves_received r strict v.joinPlan (fun after => ∀ path ∈ after.changed, P path) ?_ records
  intro state node entry pair receiver property value before isChanged found joined receives path member
  rcases mem_changed_assign member with earlier | rfl
  · exact before path earlier
  · obtain ⟨⟨record, changed, rfl⟩, -⟩ := mem_changedNodes.mp isChanged
    have plain := links entry (List.mem_of_find?_eq_some found) pair joined
    obtain ⟨rfl, a, isColumn, rfl⟩ | ⟨rfl, a, isColumn, rfl⟩ := receiver?_cases receives
    · obtain ⟨isStep, unopened⟩ := plain a (List.mem_append_right _ (Option.mem_toList.mpr isColumn))
      exact taken record _ _ (records record changed) (.inl rfl) isStep unopened
    · obtain ⟨isStep, unopened⟩ := plain a (List.mem_append_left _ (Option.mem_toList.mpr isColumn))
      exact taken record _ _ (records record changed) (.inr rfl) isStep unopened

end ViewRow

namespace View

variable {v w : View} {row number : Nat} {path record : String} {value : Value} {place : Place} {edits : List Edit}
  {P : String → Prop} {compiled : CompiledView} {settings : ViewSettings} {context : Context}

/-- Whatever is on record in a view. -/
def RecordsOnly (P : String → Prop) (v : View) : Prop :=
  ∀ r ∈ v.rows, ∀ path ∈ r.changed, P path

theorem recordsOnly_ofRows (P : String → Prop) (compiled : CompiledView) (loaded : List Row) :
    (ofRows compiled loaded).RecordsOnly P := by
  intro r member
  obtain ⟨row, -, rfl⟩ := List.mem_map.mp member
  exact fun path none => absurd none List.not_mem_nil

theorem Positional.congr (form : w.Positional row path number record) (compiled : w.compiled = v.compiled)
    (length : w.rows.length = v.rows.length) : v.Positional row path number record := by
  cases form with
  | given parsed closed => exact .given parsed (openSteps_congr compiled .. ▸ closed)
  | element parsed opened single => exact .element parsed (openSteps_congr compiled .. ▸ opened) (length ▸ single)

theorem Positional.isAddress (form : v.Positional row path number record) (plain : '[' ∉ (Path.property record).toList)
    (placed : Path.target? record = some place) : Path.IsAddress record := by
  obtain ⟨steps, parsed, -⟩ := read_positional form placed
  exact ⟨plain, steps, parsed⟩

theorem Positional.isCanonical (form : v.Positional row path number record) (placed : Path.target? record = some place)
    (spelled : ∀ steps, Path.read path = .ok steps → v.openSteps "" 0 steps = [] → Path.text steps = path) :
    Path.IsCanonical record := by
  cases form with
  | given parsed closed => exact Path.isCanonical_of_text parsed (spelled _ parsed closed)
  | element parsed opened single =>
      have bounded := bounded_of_opened parsed (opened ▸ List.mem_singleton_self _) placed
      exact ⟨_, isReadable_modify (Path.isReadable_of_read parsed) bounded, rfl⟩

theorem RecordsOnly.setValue (records : v.RecordsOnly P)
    (given : ∀ number record place, v.Positional row path number record → '[' ∉ (Path.property record).toList →
      Path.target? record = some place → P record) : (v.setValue value row path).1.RecordsOnly P := by
  cases outcome : (v.setValue value row path).2 with
  | error cause =>
      rcases setValue_eq_error outcome with same | ⟨number, positional, r, -, standing, refused, same⟩
      · rwa [same]
      · rw [same, ViewRow.assign_of_error refused]
        intro after member
        rcases List.mem_or_eq_of_mem_set member with before | rfl
        · exact records after before
        · exact records r (List.mem_of_getElem? standing)
  | ok done =>
      obtain ⟨number, positional, r, found, standing, plain, assigned, same⟩ := setValue_eq_ok outcome
      obtain ⟨place, placed, -⟩ := ViewRow.stands_assign assigned
      have form := positional_of_resolve found
      obtain ⟨others, parsed, -⟩ := read_positional form placed
      rw [same, ViewRow.assign_of_ok assigned, Path.child_node_property parsed]
      intro after member
      rcases List.mem_or_eq_of_mem_set member with before | rfl
      · exact records after before
      · intro path inside
        rcases Names.mem_insert.mp inside with rfl | earlier
        · exact given number path place form (by simpa using plain) placed
        · exact records r (List.mem_of_getElem? standing) path earlier

theorem recorded_of_setValue (set : (v.setValue value row path).2 = .ok ()) (resolved : v.resolve row path = .ok (row, path)) :
    ∃ r, (v.setValue value row path).1.rows[row]? = some r ∧ path ∈ r.changed := by
  obtain ⟨number, positional, r, found, standing, -, assigned, same⟩ := setValue_eq_ok set
  cases Except.ok.inj (resolved.symm.trans found)
  obtain ⟨steps, parsed, -⟩ := bind_eq_ok.mp resolved
  have recorded := ViewRow.mem_changed_of_assign assigned
  rw [Path.child_node_property parsed] at recorded
  refine ⟨_, ?_, recorded⟩
  rw [same]
  exact List.getElem?_set_self (List.getElem?_eq_some_iff.mp standing).1

theorem RecordsOnly.edited (records : v.RecordsOnly P)
    (given : ∀ edit ∈ edits, ∀ number record place, v.Positional edit.row edit.path number record →
      '[' ∉ (Path.property record).toList → Path.target? record = some place → P record) :
    (v.edited edits).RecordsOnly P := by
  induction edits generalizing v with
  | nil => exact records
  | cons edit rest ih =>
      refine ih (records.setValue (given edit (List.mem_cons_self ..))) ?_
      intro later member number record place form
      exact given later (List.mem_cons_of_mem _ member) number record place
        (form.congr setValue_compiled setValue_length)

theorem RecordsOnly.plan (records : v.RecordsOnly P) (links : v.compiled.LinksPlain)
    (taken : ∀ path above name, P path → above = Path.node path ∨ above = Path.node (Path.node path) → IsStep name →
      '[' ∉ name.toList → P (Path.child above name)) (settings : ViewSettings) (context : Context) :
    (v.plan settings context).1.RecordsOnly P := by
  intro after member
  obtain ⟨r, inside, rfl | rfl⟩ := exists_of_mem_left (v.plan_rows settings context).flip member
  · exact records after inside
  · exact ViewRow.records_propagate (records r inside) links settings.strictWriteBack taken

end View

namespace Planning

variable {v : CompiledView} {strict : Bool} {context : Context} {row : Nat} {r : ViewRow} {writes : List Write}

/-- The writes of a stored row are those of its changed nodes, and no two of these stand at one place. -/
def PlansRow (v : CompiledView) (strict : Bool) (context : Context) (row : Nat) (r : ViewRow) (writes : List Write) :
    Prop :=
  ∃ nodes lists, writes = lists.flatten ∧ List.Forall₂ (PlansNode v strict context row r) nodes lists ∧
    (∀ node, node ∈ nodes ↔ node ∈ r.changed.map Path.node) ∧ (nodes.map Path.nodePlace?).Nodup

theorem rowWrites_plansRow (stored : r.isNew = false) (canonical : ∀ path ∈ r.changed, Path.IsCanonical path)
    (planned : rowWrites v strict context row r = .ok writes) : PlansRow v strict context row r writes := by
  simp only [rowWrites, stored, Bool.false_eq_true, if_false] at planned
  obtain ⟨lists, each, rfl⟩ := map_eq_ok.mp planned
  have isCanonical : ∀ node ∈ Names.ofList (r.changed.map Path.node), Path.IsCanonical node := by
    intro node member
    obtain ⟨path, changed, rfl⟩ := List.mem_map.mp (Names.mem_ofList.mp member)
    exact (canonical path changed).node
  refine ⟨_, lists, rfl, (forall₂_of_mapM each).imp fun _ _ => nodeWrites_plans, fun node => Names.mem_ofList, ?_⟩
  refine List.Nodup.map_on (fun node member other otherMember same => ?_) (Names.nodup_ofList _)
  exact (isCanonical node member).eq_of_nodePlace? (isCanonical other otherMember) same

end Planning

namespace View

variable {v : View} {context : Context}

theorem RecordsOnly.plan_isAddress (records : v.RecordsOnly Path.IsAddress) (links : v.compiled.LinksPlain) (settings : ViewSettings)
    (context : Context) : (v.plan settings context).1.RecordsOnly Path.IsAddress := by
  refine records.plan links (fun path above name address which isStep unopened => ?_) settings context
  obtain ⟨steps, found⟩ := address.node
  rcases which with rfl | rfl
  · exact Path.isAddress_child found isStep unopened
  · obtain ⟨leads, found⟩ := Path.readNode_node found
    exact Path.isAddress_child found isStep unopened

theorem RecordsOnly.plan_isCanonical (records : v.RecordsOnly Path.IsCanonical) (links : v.compiled.LinksPlain)
    (settings : ViewSettings) (context : Context) : (v.plan settings context).1.RecordsOnly Path.IsCanonical := by
  refine records.plan links (fun path above name canonical which isStep unopened => ?_) settings context
  rcases which with rfl | rfl
  · exact canonical.node.child isStep unopened
  · exact canonical.node.node.child isStep unopened

theorem writes_plansRow {strict : Bool} {writes : List Write} (canonical : v.RecordsOnly Path.IsCanonical)
    (written : v.writes strict context = .ok writes) : ∃ stored removals, writes = stored.flatten ++ removals ∧
      List.Forall₂ (fun item own => item.1.isNew = false → PlansRow v.compiled strict context item.2 item.1 own)
        v.rows.zipIdx stored := by
  obtain ⟨stored, each, written⟩ := bind_eq_ok.mp written
  obtain ⟨removals, -, written⟩ := bind_eq_ok.mp written
  cases written
  have records : ∀ item ∈ v.rows.zipIdx, ∀ path ∈ item.1.changed, Path.IsCanonical path :=
    fun item member => canonical item.1 (List.fst_mem_of_mem_zipIdx member)
  refine ⟨stored, removals, rfl, List.Forall₂.imp ?_ ((List.forall₂_and_left _ _).mpr ⟨records, forall₂_of_mapM each⟩)⟩
  exact fun item own ⟨spelled, planned⟩ isStored => rowWrites_plansRow isStored spelled planned

/-- Records of a row that lead to one place are read alike, and differ in spelling: a path with all its positions is
recorded as it is given. Where these are spelled like their steps, no two records lead to one place, and planning writes
each node of a row once. -/
theorem spelled_paths_lead_apart {edits : List Edit} (addresses : v.RecordsOnly Path.IsAddress) :
    (∀ r ∈ (v.edited edits).rows, ∀ a ∈ r.changed, ∀ b ∈ r.changed,
      Path.target? a = Path.target? b ↔ Path.read a = Path.read b) ∧
    (∀ (edit : Edit) steps, ((v.edited edits).setValue edit.value edit.row edit.path).2 = .ok () →
      Path.read edit.path = .ok steps → v.openSteps "" 0 steps = [] →
      ∃ r, ((v.edited edits).setValue edit.value edit.row edit.path).1.rows[edit.row]? = some r ∧
        edit.path ∈ r.changed) ∧
    (v.RecordsOnly Path.IsCanonical →
      (∀ edit ∈ edits, ∀ steps, Path.read edit.path = .ok steps → v.openSteps "" 0 steps = [] →
        Path.text steps = edit.path) →
      (∀ r ∈ (v.edited edits).rows, ∀ a ∈ r.changed, ∀ b ∈ r.changed, Path.target? a = Path.target? b → a = b) ∧
      (v.compiled.LinksPlain → ∀ settings context, ∃ after, ((v.edited edits).plan settings context).1 = after ∧
        after.RecordsOnly Path.IsAddress ∧ after.RecordsOnly Path.IsCanonical ∧
        ∀ plan, ((v.edited edits).plan settings context).2 = .ok plan → ∃ writes stored removals,
          plan = .ofWrites context.writeTime writes ∧ writes = stored.flatten ++ removals ∧
          (plan.statements.flatMap (·.batch)).Perm (writes.map (·.parameters)) ∧
          List.Forall₂ (fun item own => item.1.isNew = false →
            PlansRow after.compiled settings.strictWriteBack context item.2 item.1 own) after.rows.zipIdx stored)) := by
  have isAddress : (v.edited edits).RecordsOnly Path.IsAddress :=
    addresses.edited fun edit _ number record place form plain placed => form.isAddress plain placed
  have alike (r : ViewRow) (inside : r ∈ (v.edited edits).rows) (a : String) (first : a ∈ r.changed) (b : String)
      (second : b ∈ r.changed) : Path.target? a = Path.target? b ↔ Path.read a = Path.read b :=
    (isAddress r inside a first).target?_eq_iff (isAddress r inside b second)
  refine ⟨alike, fun edit steps set parsed closed => ?_, fun canonical spelled => ?_⟩
  · have resolved : (v.edited edits).resolve edit.row edit.path = .ok (edit.row, edit.path) :=
      resolve_positional parsed ((openSteps_congr (edited_compiled edits) ..).trans closed)
    exact recorded_of_setValue set resolved
  · have isCanonical : (v.edited edits).RecordsOnly Path.IsCanonical :=
      canonical.edited fun edit member number record place form plain placed =>
        form.isCanonical placed (spelled edit member)
    refine ⟨fun r inside a first b second same => ?_, fun links settings context => ?_⟩
    · have read := (alike r inside a first b second).mp same
      exact (isAddress r inside a first).eq_of_read (isCanonical r inside a first) (isCanonical r inside b second) read
    · have plain : (v.edited edits).compiled.LinksPlain := (edited_compiled (v := v) edits).symm ▸ links
      have planned := isCanonical.plan_isCanonical plain settings context
      refine ⟨_, rfl, isAddress.plan_isAddress plain settings context, planned, fun plan found => ?_⟩
      obtain ⟨writes, written, rfl⟩ := plan_writes found
      obtain ⟨stored, removals, parts, each⟩ := writes_plansRow planned written
      exact ⟨writes, stored, removals, rfl, parts, PlannedStatement.batches_ofWrites writes, each⟩

end View

namespace Basket

def edits : List Edit :=
  [⟨.int 7, 0, "items[0].makerId"⟩, ⟨.int 8, 1, "items.makerId"⟩]

set_option maxRecDepth 100000 in
/-- Each of the items is written once. -/
theorem items_are_written_once : ∃ compiled plan writes stored removals, outline.view? = some compiled ∧
    (loaded compiled).RecordsOnly Path.IsAddress ∧ (loaded compiled).RecordsOnly Path.IsCanonical ∧
    (∀ edit ∈ edits, ∀ steps, Path.read edit.path = .ok steps → (loaded compiled).openSteps "" 0 steps = [] →
      Path.text steps = edit.path) ∧ compiled.LinksPlain ∧
    (((loaded compiled).edited edits).plan {} Sample.context).2 = .ok plan ∧ plan.statements.map (·.batch.length) = [2] ∧
    plan = .ofWrites Sample.context.writeTime writes ∧ writes = stored.flatten ++ removals ∧
    List.Forall₂ (fun item own => item.1.isNew = false →
      PlansRow (((loaded compiled).edited edits).plan {} Sample.context).1.compiled false Sample.context item.2 item.1 own)
      (((loaded compiled).edited edits).plan {} Sample.context).1.rows.zipIdx stored := by
  have checked : (outline.view?.map fun compiled => decide compiled.LinksPlain &&
      ((((loaded compiled).edited edits).plan {} Sample.context).2.toOption.any fun plan =>
        plan.statements.map (·.batch.length) == [2])) = some true := by
    decide +kernel
  obtain ⟨compiled, found, checked⟩ := Option.map_eq_some_iff.mp checked
  rw [Bool.and_eq_true, decide_eq_true_eq] at checked
  obtain ⟨links, counted⟩ := checked
  obtain ⟨plan, planned, lengths⟩ := (Option.any_eq_true _ _).mp counted
  have addresses : (loaded compiled).RecordsOnly Path.IsAddress := View.recordsOnly_ofRows _ compiled _
  have canonical : (loaded compiled).RecordsOnly Path.IsCanonical := View.recordsOnly_ofRows _ compiled _
  have spelled : ∀ edit ∈ edits, ∀ steps, Path.read edit.path = .ok steps →
      (loaded compiled).openSteps "" 0 steps = [] → Path.text steps = edit.path := by
    intro edit member steps parsed closed
    have each : ∀ edit ∈ edits, ((Path.read edit.path).toOption.any fun steps => Path.text steps == edit.path) = true := by
      decide +kernel
    simpa [parsed, Except.toOption] using each edit member
  obtain ⟨-, -, spells⟩ := @View.spelled_paths_lead_apart (loaded compiled) edits addresses
  obtain ⟨after, rfl, -, -, each⟩ := (spells canonical spelled).2 links {} Sample.context
  obtain ⟨writes, stored, removals, ofWrites, parts, -, rows⟩ := each plan (eq_ok_of_toOption planned)
  exact ⟨compiled, plan, writes, stored, removals, found, addresses, canonical, spelled, links,
    eq_ok_of_toOption planned, beq_iff_eq.mp lengths, ofWrites, parts, rows⟩

set_option maxRecDepth 100000 in
example : (outline.view?.map fun compiled =>
    let v := (loaded compiled).edited [⟨.int 7, 0, "items[0].makerId"⟩, ⟨.int 8, 0, "items[00].makerId"⟩]
    (v.rows.map (·.changed), (v.plan {} Sample.context).2.toOption.map fun plan =>
      (plan.statements.flatMap (·.batch)).length)) =
      some ([["items[00].makerId", "items[0].makerId"]], some 2) := by
  decide +kernel

end Basket

end ViewEngine
