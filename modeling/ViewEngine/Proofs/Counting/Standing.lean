import ViewEngine.Proofs.Counting.Joins
import ViewEngine.Proofs.Isolation.Primary
import ViewEngine.Proofs.Requests.Collections
import ViewEngine.Proofs.Selection.Statements

/-!
What the statement for the root rows rests on. Its nodes stand on the rows of associations to one row; a collection is
joined only to be counted, and nothing but its count has to do with its rows.
-/

namespace ViewEngine

open Sql Compile JoinPlan

def Entity.countedColumn (e : Entity) : String :=
  ((e.identityKeys.head?).bind (·.column)).getD ""

def JoinPlan.IsSingle (plan : JoinPlan) (table : Nat) : Prop :=
  ∀ j ∈ plan.entries, j.table = table → j.subject.isCollection = false

namespace Compile

/-- A column that is offered for a node: its count, one of the rows that it stands on, or one of the row that it
leads to. -/
inductive Reached.Offers (registry : Registry) (plan : JoinPlan) (x : Reached) : Projection → Prop
  | count {aggregate : Aggregate} {target : Entity} (counted : x.item.aggregate = some aggregate)
      (isTarget : registry.targetOf x.subject = .ok target) :
      Offers registry plan x ⟨.function aggregate.functionName
        [.wholeRow (plan.tableAt x.path x.subject) target.countedColumn], ⟨x.alias, none, .aggregate⟩⟩
  | here (column : String) {b : ColumnBinding} (plain : b.kind = .value) :
      Offers registry plan x ⟨.columnOf x.table column, b⟩
  | joined (column : String) {b : ColumnBinding} {target : Entity} (plain : b.kind = .value)
      (uncounted : x.item.aggregate = none) (single : x.subject.isCollection = false)
      (isTarget : registry.targetOf x.subject = .ok target) :
      Offers registry plan x ⟨.columnOf (plan.tableAt x.path x.subject) column, b⟩

/-- The tables of the root rows, of the rows that nodes stand on, and of single rows that they lead to. -/
inductive RestsOn (registry : Registry) (plan : JoinPlan) (t : FilterTree) : Nat → Prop
  | root : RestsOn registry plan t 0
  | node {x : Reached} (reached : x ∈ reachedFrom registry plan t) : RestsOn registry plan t x.table
  | joined {x : Reached} {target : Entity} (reached : x ∈ reachedFrom registry plan t)
      (uncounted : x.item.aggregate = none) (single : x.subject.isCollection = false)
      (isTarget : registry.targetOf x.subject = .ok target) : RestsOn registry plan t (plan.tableAt x.path x.subject)

section Offered

variable {registry : Registry} {plan : JoinPlan} {e : Entity} {a : Attribute} {attributes : List Attribute}
  {columns : List String} {table : Nat} {path : String} {p : Projection}

theorem columnAt_form (column : a.columnAt? table path = some p) :
    ∃ name b, p = ⟨.columnOf table name, b⟩ ∧ b.kind = .value := by
  obtain ⟨name, -, rfl⟩ := Option.map_eq_some_iff.mp column
  exact ⟨name, _, rfl, rfl⟩

theorem columnsAt_form (member : p ∈ attributes.filterMap (·.columnAt? table path)) :
    ∃ name b, p = ⟨.columnOf table name, b⟩ ∧ b.kind = .value := by
  obtain ⟨a, -, column⟩ := List.mem_filterMap.mp member
  exact columnAt_form column

mutual

theorem offers_of_offeredOfAll (nodes : List FilterNode) {es : List Entity} {table : Nat} {above : String}
    (offered : p ∈ offeredOfAll registry plan es table above nodes) :
    ∃ x ∈ reachedOfAll registry plan es table above nodes, x.Offers registry plan p := by
  match nodes with
  | [] => contradiction
  | n :: rest =>
      rcases List.mem_append.mp offered with here | later
      · obtain ⟨x, inside, offers⟩ := offers_of_offeredOf n here
        exact ⟨x, List.mem_append_left _ inside, offers⟩
      · obtain ⟨x, inside, offers⟩ := offers_of_offeredOfAll rest later
        exact ⟨x, List.mem_append_right _ inside, offers⟩

theorem offers_of_offeredOf (n : FilterNode) {es : List Entity} {table : Nat} {above : String}
    (offered : p ∈ offeredOf registry plan es table above n) :
    ∃ x ∈ reachedOf registry plan es table above n, x.Offers registry plan p := by
  match n with
  | ⟨item, children⟩ =>
      cases found : resolve? item es with
      | none => simp [offeredOf, found] at offered
      | some pair =>
          obtain ⟨e, a⟩ := pair
          let x : Reached := ⟨item, children, a, table, Path.child above a.property⟩
          have isReached : x ∈ reachedOf registry plan es table above ⟨item, children⟩ := by
            simp [reachedOf, found, x]
          have source (side : p ∈ e.sideColumns (a.joinColumns.map (·.source)) table above) :
              x.Offers registry plan p := by
            obtain ⟨name, b, rfl, plain⟩ := columnsAt_form side
            exact .here name plain
          cases counted : item.aggregate with
          | some aggregate =>
              cases isTarget : registry.targetOf a with
              | error cause => simp [offeredOf, found, counted, isTarget] at offered
              | ok target =>
                  simp only [offeredOf, found, counted, isTarget, List.mem_singleton] at offered
                  subst offered
                  exact ⟨x, isReached, .count counted isTarget⟩
          | none =>
              cases collection : a.isCollection with
              | true =>
                  cases isTarget : registry.targetOf a <;>
                    (simp only [offeredOf, found, counted, isTarget, collection, if_true] at offered
                     exact ⟨x, isReached, source offered⟩)
              | false =>
                  cases isTarget : registry.targetOf a with
                  | error cause =>
                      simp only [offeredOf, found, counted, isTarget, collection, Bool.false_eq_true,
                        if_false] at offered
                      split at offered
                      next => contradiction
                      next =>
                        obtain ⟨name, -, rfl⟩ := Option.map_eq_some_iff.mp (Option.mem_toList.mp offered)
                        exact ⟨x, isReached, .here name rfl⟩
                  | ok target =>
                      have joined {attributes : List Attribute} (own : p ∈ attributes.filterMap
                          (·.columnAt? (plan.tableAt x.path x.subject) x.path)) : x.Offers registry plan p := by
                        obtain ⟨name, b, rfl, plain⟩ := columnsAt_form own
                        exact .joined name plain counted collection isTarget
                      simp only [offeredOf, found, counted, isTarget, collection, Bool.false_eq_true, if_false,
                        List.mem_append] at offered
                      rcases offered with ((inside | key) | side) | side
                      · rcases offeredOrAll_cases inside with scalar | asked
                        · exact ⟨x, isReached, joined scalar⟩
                        · obtain ⟨y, below, offers⟩ := offers_of_offeredOfAll children asked
                          refine ⟨y, ?_, offers⟩
                          simp only [reachedOf, found, counted, collection, isTarget, Option.isSome_none, Bool.or_self,
                            Bool.false_eq_true, if_false]
                          exact List.mem_cons_of_mem _ below
                      · exact ⟨x, isReached, joined key⟩
                      · exact ⟨x, isReached, source side⟩
                      · exact ⟨x, isReached, joined side⟩

end

end Offered

structure Reached.IsEntry (setting : Setting) (plan : JoinPlan) (x : Reached) (j : JoinEntry) : Prop where
  found : plan.find? x.path x.subject.id = some j
  subject : j.subject = x.subject
  source : j.source = x.table
  isTarget : setting.registry.targetOf x.subject = .ok j.entity

theorem Reached.IsEntry.tableAt {setting : Setting} {plan : JoinPlan} {x : Reached} {j : JoinEntry}
    (entry : x.IsEntry setting plan j) : plan.tableAt x.path x.subject = j.table := by
  rw [JoinPlan.tableAt, entry.found]
  rfl

theorem Reached.IsEntry.member {setting : Setting} {plan : JoinPlan} {x : Reached} {j : JoinEntry}
    (entry : x.IsEntry setting plan j) : j ∈ plan.entries :=
  List.mem_of_find?_eq_some entry.found

section Standing

variable {setting : Setting} {plan : JoinPlan} {roots es : List Entity} {way : List JoinEntry} {table : Nat}
  {above : String} {nodes : List FilterNode} {x : Reached} {p : Projection}

theorem isSingle_zero (built : plan.IsBuilt setting roots) : plan.IsSingle 0 :=
  fun _ member zero => absurd zero (built.table_ne_zero member)

theorem exists_entry (addressable : setting.IsAddressable roots) (built : plan.IsBuilt setting roots)
    (leads : plan.Leads roots way es x.table above) {e target : Entity}
    (found : resolve? x.item es = some (e, x.subject)) (path : x.path = Path.child above x.subject.property)
    (isTarget : setting.registry.targetOf x.subject = .ok target)
    (planned : (plan.find? x.path x.subject.id).isSome = true) : ∃ j, x.IsEntry setting plan j := by
  obtain ⟨j, isEntry⟩ := Option.isSome_iff_exists.mp planned
  have holds := List.find?_some isEntry
  rw [Bool.and_eq_true, beq_iff_eq, beq_iff_eq] at holds
  have joins := joins_of_path addressable built leads (declared_of_resolve addressable leads found isTarget) isTarget
    (List.mem_of_find?_eq_some isEntry) (holds.1.trans path)
  exact ⟨j, isEntry, joins.subject, joins.source, joins.entity ▸ isTarget⟩

theorem Reached.IsEntry.isSingle (built : plan.IsBuilt setting roots) {j : JoinEntry} (entry : x.IsEntry setting plan j)
    (single : x.subject.isCollection = false) : plan.IsSingle j.table := by
  intro k member same
  rw [built.eq_of_table member entry.member same, entry.subject]
  exact single

/-- What is reached in the statement of some rows stands on rows that no collection is joined for, if these do. -/
theorem IsReached.isSingle (addressable : setting.IsAddressable roots) (built : plan.IsBuilt setting roots)
    (reached : IsReached setting.registry plan es table above nodes x)
    (planned : ArePlanned setting.registry plan (reachedOfAll setting.registry plan es table above nodes))
    (leads : plan.Leads roots way es table above) (single : plan.IsSingle table) : plan.IsSingle x.table := by
  induction reached generalizing way with
  | here => exact single
  | @further es table above nodes n e target a x member found plain toOne isTarget inside ih =>
      let y : Reached := ⟨n.item, n.children, a, table, Path.child above a.property⟩
      have isJoined : y.isJoined = true := by
        simp [y, Reached.isJoined, toOne, Registry.isAssociation_of_targetOf isTarget]
      obtain ⟨-, -, isPlanned⟩ := planned y (mem_reachedOfAll_iff.mpr (.here member found)) isJoined
      obtain ⟨j, entry⟩ := exists_entry (x := y) addressable built leads found rfl isTarget isPlanned
      obtain ⟨way, next⟩ := leads_child addressable built leads
        (declared_of_resolve addressable leads found isTarget) isTarget isPlanned
      refine ih (fun z below => planned z (mem_reachedOfAll_iff.mpr ?_)) next ?_
      · exact .further member found plain toOne isTarget (mem_reachedOfAll_iff.mp below)
      · rw [show plan.tableAt (Path.child above a.property) a = j.table from entry.tableAt]
        exact entry.isSingle built toOne

end Standing

end Compile

section Views

variable {registry : Registry} {settings : ViewSettings} {dialect : Dialect} {pointInTime : Option Timestamp}
  {page : Page} {t : FilterTree} {v : CompiledView} {x : Reached} {p : Projection} {j : JoinEntry}

/-- The nodes of the root rows stand on rows of associations to one row, and have their entries in the plan. -/
theorem reached_stands (addressable : Setting.IsAddressable ⟨registry, pointInTime⟩ t.roots)
    (compiled : compile registry settings dialect pointInTime page t = .ok v)
    (reached : x ∈ reachedFrom registry v.joinPlan t) : v.joinPlan.IsSingle x.table ∧
      (x.isJoined = true → ∃ j, x.IsEntry ⟨registry, pointInTime⟩ v.joinPlan j) := by
  obtain ⟨built, -⟩ := compile_made addressable compiled
  obtain ⟨⟨-, -, planned⟩, -⟩ := compile_selects addressable compiled
  have isReached := mem_reachedOfAll_iff.mp reached
  refine ⟨isReached.isSingle addressable built planned .root (isSingle_zero built), fun isJoined => ?_⟩
  obtain ⟨target, isTarget, isPlanned⟩ := planned x reached isJoined
  obtain ⟨way, es, e, above, leads, found, path⟩ := isReached.leads addressable built planned .root
  exact exists_entry addressable built leads found path isTarget isPlanned

/-- Each join is for a node, and starts from the rows that the node stands on. -/
theorem primary_entry (addressable : Setting.IsAddressable ⟨registry, pointInTime⟩ t.roots)
    (compiled : compile registry settings dialect pointInTime page t = .ok v) {join : Join}
    (member : join ∈ v.primary.joins) : ∃ x ∈ reachedFrom registry v.joinPlan t, ∃ j,
      x.IsEntry ⟨registry, pointInTime⟩ v.joinPlan j ∧ join = j.join := by
  obtain ⟨last, primary, grown, -, isPrimary⟩ := compile_primary compiled
  rw [isPrimary, Scope.finish_eq] at member
  obtain ⟨x, reached, joined⟩ := primary_joined primary grown join member
  unfold Reached.join? at joined
  split at joined
  · contradiction
  next isJoined =>
    have kind : x.isJoined = true := by
      rw [Bool.or_eq_true, not_or, Reached.isColumn, Reached.isCollection] at isJoined
      cases counted : x.item.aggregate <;> simp_all [Reached.isJoined]
    obtain ⟨j, entry⟩ := (reached_stands addressable compiled reached).2 kind
    obtain ⟨k, found, rfl⟩ := Option.map_eq_some_iff.mp joined
    cases entry.found.symm.trans found
    exact ⟨x, reached, j, entry, rfl⟩

/-- A column that is selected is the root's key, stands on the root rows, or is offered for a node. -/
theorem projection_cases (addressable : Setting.IsAddressable ⟨registry, pointInTime⟩ t.roots)
    (compiled : compile registry settings dialect pointInTime page t = .ok v) (member : p ∈ v.projections) :
    p = (Root.ofTree settings t).keyColumn ∨ (∃ name b, p = ⟨.columnOf 0 name, b⟩ ∧ b.kind = .value) ∨
      ∃ x ∈ reachedFrom registry v.joinPlan t, x.Offers registry v.joinPlan p := by
  obtain ⟨⟨-, columns, -⟩, -⟩ := compile_selects addressable compiled
  rw [show v.projections = Part.projections ⟨"", v.primary, v.columns⟩ from rfl, columns] at member
  rcases mem_putColumns member with key | offered
  · exact .inl (List.mem_singleton.mp key)
  · refine .inr ?_
    simp only [FilterTree.columns, List.mem_append] at offered
    rcases offered with ((scalar | asked) | key) | discriminator
    · split at scalar
      · exact .inl (columnsAt_form scalar)
      · contradiction
    · exact .inr (offers_of_offeredOfAll t.nodes asked)
    · exact .inl (columnsAt_form key)
    · obtain ⟨d, -, column⟩ := Option.bind_eq_some_iff.mp (Option.mem_toList.mp discriminator)
      exact .inl (columnAt_form column)

theorem foldl_onto_tables (plan : JoinPlan) (reached : List Reached) (s : Statement) :
    (reached.foldl (Reached.onto plan) s).tables = s.tables := by
  have joined (join : Join) (s : Statement) : (s.addJoin join).tables = s.tables := by
    unfold Statement.addJoin
    split <;> rfl
  induction reached generalizing s with
  | nil => rfl
  | cons x rest ih =>
      rw [List.foldl_cons, ih]
      unfold Reached.onto
      cases x.join? plan <;> cases x.leaf? <;> cases x.ordering? <;>
        simp [Statement.addOrdering, Statement.filter, Statement.addCondition, joined]

theorem primary_tables (compiled : compile registry settings dialect pointInTime page t = .ok v) :
    v.primary.tables = [⟨t.root.table, some 0⟩] := by
  obtain ⟨last, primary, grown, -, isPrimary⟩ := compile_primary compiled
  have tables : v.primary.tables = last.scope.base.tables := by
    rw [isPrimary, Scope.finish_eq]
    rfl
  have begun : ((Root.ofTree settings t).start []).base.tables = [⟨t.root.table, some 0⟩] := by
    rw [Root.start, Scope.project_base]
    rfl
  obtain ⟨further, restricted, -⟩ := (Root.ofTree settings t).root.restrictedTo_constrainRoot
    (Root.ofTree settings t).others
    ((reachedFrom registry v.joinPlan t).foldl (Reached.onto v.joinPlan) ((Root.ofTree settings t).start []).base)
  rw [tables, (primary_base primary grown).1, restricted, ← begun]
  exact foldl_onto_tables ..

section Rests

variable (addressable : Setting.IsAddressable ⟨registry, pointInTime⟩ t.roots)
  (compiled : compile registry settings dialect pointInTime page t = .ok v)

include addressable compiled

theorem Compile.RestsOn.isSingle {n : Nat} (rests : RestsOn registry v.joinPlan t n) : v.joinPlan.IsSingle n := by
  obtain ⟨built, -⟩ := compile_made addressable compiled
  cases rests with
  | root => exact isSingle_zero built
  | node reached => exact (reached_stands addressable compiled reached).1
  | @joined x target reached _ single isTarget =>
      have isJoined : x.isJoined = true := by
        simp [Reached.isJoined, single, Registry.isAssociation_of_targetOf isTarget]
      obtain ⟨j, entry⟩ := (reached_stands addressable compiled reached).2 isJoined
      rw [entry.tableAt]
      exact entry.isSingle built single

theorem column_rests (member : p ∈ v.projections) (plain : p.binding.kind ≠ .aggregate) :
    ∀ n ∈ p.expr.tables, RestsOn registry v.joinPlan t n := by
  intro n mentioned
  rcases projection_cases addressable compiled member with rfl | ⟨name, b, rfl, -⟩ | ⟨x, reached, offers⟩
  · exact Entity.tables_rootKey mentioned ▸ .root
  · exact List.mem_singleton.mp mentioned ▸ .root
  · cases offers with
    | count => exact absurd rfl plain
    | here => exact List.mem_singleton.mp mentioned ▸ .node reached
    | joined column _ uncounted single isTarget =>
        exact List.mem_singleton.mp mentioned ▸ .joined reached uncounted single isTarget

omit addressable in
theorem condition_rests : ∀ n ∈ v.primary.conditions.flatMap (·.tables), RestsOn registry v.joinPlan t n := by
  obtain ⟨last, primary, grown, -, isPrimary⟩ := compile_primary compiled
  intro n mentioned
  obtain ⟨condition, member, mentioned⟩ := List.mem_flatMap.mp mentioned
  have conditions : v.primary.conditions = last.scope.base.conditions := by
    rw [isPrimary, Scope.finish_eq]
    rfl
  rw [conditions, (primary_base primary grown).1] at member
  obtain ⟨further, restricted, zero⟩ := (Root.ofTree settings t).root.restrictedTo_constrainRoot
    (Root.ofTree settings t).others
    ((reachedFrom registry v.joinPlan t).foldl (Reached.onto v.joinPlan) ((Root.ofTree settings t).start []).base)
  rw [restricted] at member
  rcases List.mem_append.mp member with asked | ofRoot
  · rw [foldl_onto_conditions, (start_isUnrestricted _ []).2, List.nil_append] at asked
    obtain ⟨l, leaf, rfl⟩ := List.mem_map.mp asked
    obtain ⟨x, reached, isLeaf⟩ := List.mem_filterMap.mp leaf
    have table : l.table = x.table := by
      unfold Reached.leaf? at isLeaf
      split at isLeaf
      · obtain ⟨predicate, -, column⟩ := Option.bind_eq_some_iff.mp isLeaf
        obtain ⟨name, -, rfl⟩ := Option.map_eq_some_iff.mp column
        rfl
      · contradiction
    rw [List.mem_singleton.mp (Predicate.tables_expr mentioned), table]
    exact .node reached
  · exact zero condition ofRoot n mentioned ▸ .root

theorem grouping_rests : ∀ n ∈ v.primary.grouping.flatMap (·.tables), RestsOn registry v.joinPlan t n := by
  intro n mentioned
  obtain ⟨expr, member, mentioned⟩ := List.mem_flatMap.mp mentioned
  rw [(compile_isGrouped compiled).grouping] at member
  split at member
  · obtain ⟨p, plain, rfl⟩ := List.mem_map.mp member
    obtain ⟨isColumn, plain⟩ := List.mem_filter.mp plain
    exact column_rests addressable compiled isColumn (bne_iff_ne.mp plain) n mentioned
  · contradiction

theorem join_rests {join : Join} (member : join ∈ v.primary.joins) :
    ∀ n ∈ join.condition.tables, join.table.number = some n ∨ RestsOn registry v.joinPlan t n := by
  obtain ⟨built, -⟩ := compile_made addressable compiled
  obtain ⟨x, reached, j, entry, rfl⟩ := primary_entry addressable compiled member
  intro n mentioned
  rw [(built.entries j entry.member).join] at mentioned ⊢
  rcases tables_joinCondition mentioned with source | own
  · rw [source, entry.source]
    exact .inr (.node reached)
  · exact .inl (own ▸ rfl)

end Rests

theorem Sql.Join.AreOrdered.apart {before after : List Join} {join : Join} {table : Nat}
    (ordered : AreOrdered (before ++ join :: after)) (number : join.table.number = some table) :
    (∀ other ∈ before, other.table.number ≠ some table) ∧ ∀ other ∈ after, ∃ n, other.table.number = some n ∧
      table ≠ n ∧ n ∉ join.condition.tables := by
  have here : (before ++ join :: after)[before.length]? = some join := by simp
  obtain ⟨n, own, fresh, mentions⟩ := ordered _ _ here
  obtain rfl : table = n := Option.some.inj (number.symm.trans own)
  rw [List.take_left] at fresh mentions
  refine ⟨fun other member same => fresh (mem_introduced member same), fun other member => ?_⟩
  obtain ⟨i, there⟩ := List.getElem?_of_mem member
  have later : (before ++ join :: after)[before.length + 1 + i]? = some other := by
    rw [List.getElem?_append_right (by omega), show before.length + 1 + i - before.length = i + 1 by omega]
    exact there
  obtain ⟨n, otherNumber, apart, -⟩ := ordered _ _ later
  have earlier : before ++ [join] ⊆ (before ++ join :: after).take (before.length + 1 + i) := by
    have split : before ++ join :: after = (before ++ [join]) ++ after := by simp
    have length : before.length + 1 = (before ++ [join]).length := by simp
    rw [split, length, List.take_length_add_append]
    exact List.subset_append_left ..
  have joined : join ∈ (before ++ join :: after).take (before.length + 1 + i) :=
    earlier (List.mem_append_right _ (List.mem_singleton_self join))
  refine ⟨n, otherNumber, fun same => apart (mem_introduced joined (same ▸ number)), fun mentioned => ?_⟩
  rcases mentions n mentioned with same | introduced
  · exact apart (mem_introduced joined (same ▸ number))
  · exact apart (introduced_subset (List.Subset.trans (List.subset_append_left ..) earlier) introduced)

/-- The joins of the statement for the root rows have numbers other than that of the root's table. -/
theorem join_number (addressable : Setting.IsAddressable ⟨registry, pointInTime⟩ t.roots)
    (compiled : compile registry settings dialect pointInTime page t = .ok v) {join : Join}
    (member : join ∈ v.primary.joins) : join.table.number ≠ none ∧ join.table.number ≠ some 0 := by
  obtain ⟨built, -⟩ := compile_made addressable compiled
  obtain ⟨x, -, j, entry, rfl⟩ := primary_entry addressable compiled member
  rw [(built.entries j entry.member).join]
  exact ⟨Option.some_ne_none _, fun zero => built.table_ne_zero entry.member (Option.some.inj zero)⟩

theorem join_mem_of_selected (addressable : Setting.IsAddressable ⟨registry, pointInTime⟩ t.roots)
    (comparable : Setting.IsComparable ⟨registry, pointInTime⟩)
    (compiled : compile registry settings dialect pointInTime page t = .ok v)
    (entry : x.IsEntry ⟨registry, pointInTime⟩ v.joinPlan j) (member : p ∈ v.projections)
    (mentioned : j.table ∈ p.expr.tables) : j.join ∈ v.primary.joins := by
  obtain ⟨built, -⟩ := compile_made addressable compiled
  have selected : j.table ∈ v.primary.mentioned := by
    have item : (⟨p.expr, some p.binding.label⟩ : SelectItem) ∈ v.primary.selected := by
      rw [(compile_isGrouped compiled).selected]
      exact List.mem_map_of_mem member
    simp only [Statement.mentioned, List.mem_append, List.mem_flatMap]
    exact .inl (.inl (.inl ⟨_, item, mentioned⟩))
  rcases List.mem_cons.mp ((statements_are_scoped addressable comparable compiled).1.mentioned _ selected) with
    zero | introduced
  · exact absurd zero (built.table_ne_zero entry.member)
  · obtain ⟨join, joined, number⟩ := List.mem_filterMap.mp introduced
    obtain ⟨y, -, k, isEntry, rfl⟩ := primary_entry addressable compiled joined
    rw [(built.entries k isEntry.member).join] at number
    rwa [← built.eq_of_table isEntry.member entry.member (Option.some.inj number)]

/-- The rows of a collection that is counted are loose: nothing else in the statement rests on them. -/
theorem counted_isLoose (addressable : Setting.IsAddressable ⟨registry, pointInTime⟩ t.roots)
    (comparable : Setting.IsComparable ⟨registry, pointInTime⟩)
    (compiled : compile registry settings dialect pointInTime page t = .ok v)
    (entry : x.IsEntry ⟨registry, pointInTime⟩ v.joinPlan j) (collection : x.subject.isCollection = true)
    (joined : j.join ∈ v.primary.joins) : v.primary.IsLoose j.join j.table := by
  obtain ⟨built, -⟩ := compile_made addressable compiled
  have number : j.join.table.number = some j.table := by rw [(built.entries j entry.member).join]
  have unrested : ¬ RestsOn registry v.joinPlan t j.table := by
    intro rests
    have single := rests.isSingle addressable compiled j entry.member rfl
    rw [entry.subject, collection] at single
    contradiction
  refine ⟨number, ?_, fun mentioned => unrested (condition_rests compiled _ mentioned),
    fun mentioned => unrested (grouping_rests addressable compiled _ mentioned)⟩
  obtain ⟨before, after, split⟩ := List.append_of_mem joined
  have ordered := (statements_are_scoped addressable comparable compiled).1.joins
  rw [split] at ordered
  obtain ⟨numbers, apart⟩ := ordered.apart number
  refine ⟨before, after, split, numbers, fun other member => ?_⟩
  obtain ⟨n, otherNumber, different, absent⟩ := apart other member
  refine ⟨j.table, n, number, otherNumber, different, fun mentioned => ?_, absent⟩
  have isJoin : other ∈ v.primary.joins := split ▸ List.mem_append_right before (List.mem_cons_of_mem _ member)
  rcases join_rests addressable compiled isJoin _ mentioned with own | rests
  · exact different (Option.some.inj (own.symm.trans otherNumber))
  · exact unrested rests

/-- Where nothing is joined but to be counted, the statement rests on the root rows alone. -/
theorem Compile.RestsOn.eq_zero {plan : JoinPlan} {n : Nat}
    (counts : ∀ x ∈ reachedFrom registry plan t, x.isJoined = true → x.item.aggregate.isSome = true)
    (rests : RestsOn registry plan t n) : n = 0 := by
  have uncounted {x : Reached} {target : Entity} (reached : x ∈ reachedFrom registry plan t)
      (plain : x.item.aggregate = none) (single : x.subject.isCollection = false)
      (isTarget : registry.targetOf x.subject = .ok target) : False := by
    have counted := counts x reached (by
      simp [Reached.isJoined, single, Registry.isAssociation_of_targetOf isTarget])
    rw [plain] at counted
    contradiction
  cases rests with
  | root => rfl
  | node reached =>
      cases mem_reachedOfAll_iff.mp reached with
      | here => rfl
      | further member found plain single isTarget _ =>
          exact (uncounted (mem_reachedOfAll_iff.mpr (.here member found)) plain single isTarget).elim
  | joined reached plain single isTarget => exact (uncounted reached plain single isTarget).elim

theorem joins_apart (addressable : Setting.IsAddressable ⟨registry, pointInTime⟩ t.roots)
    (comparable : Setting.IsComparable ⟨registry, pointInTime⟩)
    (compiled : compile registry settings dialect pointInTime page t = .ok v)
    (counts : ∀ x ∈ reachedFrom registry v.joinPlan t, x.isJoined = true → x.item.aggregate.isSome = true) :
    v.primary.joins.Pairwise Join.Apart := by
  have ordered := (statements_are_scoped addressable comparable compiled).1.joins
  have absent {join : Join} (member : join ∈ v.primary.joins) {m n : Nat} (number : join.table.number = some m)
      (other : n ≠ m) (nonzero : n ≠ 0) : n ∉ join.condition.tables := by
    intro mentioned
    rcases join_rests addressable compiled member n mentioned with own | rests
    · exact other (Option.some.inj (own.symm.trans number))
    · exact nonzero (rests.eq_zero counts)
  refine List.pairwise_iff_getElem.mpr fun i k before after earlier => ?_
  obtain ⟨m, first, -⟩ := ordered i _ (List.getElem?_eq_getElem before)
  obtain ⟨n, second, fresh, -⟩ := ordered k _ (List.getElem?_eq_getElem after)
  have inside := List.getElem_mem before
  have further := List.getElem_mem after
  have different : m ≠ n := by
    rintro rfl
    refine fresh (Join.mem_introduced ?_ first)
    exact List.mem_take_iff_getElem.mpr ⟨i, by omega, rfl⟩
  have nonzero {join : Join} (member : join ∈ v.primary.joins) {number : Nat}
      (found : join.table.number = some number) : number ≠ 0 := by
    rintro rfl
    exact (join_number addressable compiled member).2 found
  exact ⟨m, n, first, second, different, absent further second different (nonzero inside first),
    absent inside first different.symm (nonzero further second)⟩

end Views

end ViewEngine
