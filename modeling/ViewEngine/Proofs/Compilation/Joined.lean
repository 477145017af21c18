import ViewEngine.Proofs.Compilation.Collected
import ViewEngine.Proofs.Compilation.Tables

namespace ViewEngine

open Sql Compile

/-- An entry joins the table that its association names, or else that of the target, under its own number. -/
structure JoinEntry.IsResolved (registry : Registry) (j : JoinEntry) : Prop where
  target : registry.targetOf j.subject = .ok j.entity
  table : j.join.table = ⟨joinedTable j.subject j.entity, some j.table⟩

structure JoinPlan.IsResolved (registry : Registry) (plan : JoinPlan) : Prop where
  numbered : ∀ i j, plan.entries[i]? = some j → j.table = i + 1
  entries : ∀ j ∈ plan.entries, j.IsResolved registry

def JoinPlan.Covers (plan : JoinPlan) (s : Statement) : Prop :=
  ∀ x ∈ s.joins, ∃ j ∈ plan.entries, j.join = x

variable {registry : Registry} {plan further : JoinPlan} {j k : JoinEntry} {s : Statement}

theorem JoinPlan.isResolved_empty : (⟨[]⟩ : JoinPlan).IsResolved registry :=
  ⟨by simp, by simp⟩

theorem JoinPlan.IsResolved.eq_of_table (resolved : plan.IsResolved registry) (left : j ∈ plan.entries)
    (right : k ∈ plan.entries) (same : j.table = k.table) : j = k :=
  JoinPlan.IsSequential.eq_of_table resolved.numbered left right same

theorem JoinPlan.IsResolved.add (resolved : plan.IsResolved registry) (entry : j.IsResolved registry)
    (next : plan.IsNext j.table) : (plan.add j).IsResolved registry := by
  refine ⟨JoinPlan.IsSequential.add resolved.numbered next, fun k member => ?_⟩
  rcases List.mem_append.mp member with old | new
  · exact resolved.entries k old
  · rw [List.mem_singleton.mp new]
    exact entry

namespace JoinPlan.Covers

theorem mono (covers : plan.Covers s) (grown : plan.entries <+: further.entries) : further.Covers s :=
  fun x member => (covers x member).imp fun _ found => ⟨grown.subset found.1, found.2⟩

theorem addJoin (covers : plan.Covers s) (member : j ∈ plan.entries) : plan.Covers (s.addJoin j.join) := by
  intro x joined
  rcases mem_addJoin joined with old | rfl
  · exact covers x old
  · exact ⟨j, member, rfl⟩

theorem foldl_addJoin {joins : List Join} (covers : plan.Covers s)
    (planned : ∀ x ∈ joins, ∃ j ∈ plan.entries, j.join = x) :
    plan.Covers (joins.foldl Statement.addJoin s) := by
  intro x joined
  rcases mem_foldl_addJoin joined with old | new
  · exact covers x old
  · exact planned x new

theorem mem_addJoin (covers : plan.Covers s) (resolved : plan.IsResolved registry) (member : j ∈ plan.entries) :
    j.join ∈ (s.addJoin j.join).joins := by
  refine mem_addJoin_of_known fun x inside tables => ?_
  obtain ⟨k, other, rfl⟩ := covers x inside
  rw [(resolved.entries k other).table, (resolved.entries j member).table, TableReference.mk.injEq,
    Option.some.injEq] at tables
  rw [resolved.eq_of_table other member tables.2]

end JoinPlan.Covers

theorem JoinPlan.mem_chainTo {table : Nat} {x : Join} (member : x ∈ plan.chainTo table) :
    ∃ j ∈ plan.entries, j.join = x := by
  have chained (entries : List JoinEntry) (joins : List Join) (table : Nat)
      (member : x ∈ chainOnto joins table entries) : x ∈ joins ∨ ∃ j ∈ entries, j.join = x := by
    induction entries generalizing joins table with
    | nil => exact .inl member
    | cons e earlier ih =>
        unfold chainOnto at member
        split at member
        · rcases ih _ _ member with inside | ⟨j, later, same⟩
          · rcases List.mem_cons.mp inside with rfl | old
            · exact .inr ⟨e, List.mem_cons_self .., rfl⟩
            · exact .inl old
          · exact .inr ⟨j, List.mem_cons_of_mem _ later, same⟩
        · rcases ih _ _ member with inside | ⟨j, later, same⟩
          · exact .inl inside
          · exact .inr ⟨j, List.mem_cons_of_mem _ later, same⟩
  rcases chained _ [] table member with none | ⟨j, inside, same⟩
  · contradiction
  · exact ⟨j, List.mem_reverse.mp inside, same⟩

namespace Compile

structure State.IsResolved (registry : Registry) (state : State) : Prop where
  plan : state.plan.IsResolved registry
  next : state.plan.IsNext state.nextTable
  covers : state.plan.Covers state.scope.statement

structure State.Joins (registry : Registry) (before after : State) : Prop where
  resolved : after.IsResolved registry
  grown : before.Grown after
  added : ∀ j ∈ after.plan.entries, j ∈ before.plan.entries ∨ j.join ∈ after.scope.statement.joins

variable {setting : Setting} {before middle state after : State} {e target : Entity} {a : Attribute}
  {table joined : Nat} {above path : String} {item : FilterItem} {nodes children : List FilterNode}

namespace State.Joins

theorem of_same (resolved : state.IsResolved registry) (plan : after.plan = state.plan)
    (next : after.nextTable = state.nextTable)
    (joins : after.scope.statement.joins = state.scope.statement.joins) : state.Joins registry after where
  resolved := ⟨plan ▸ resolved.plan, by rw [plan, next]; exact resolved.next,
    by rw [JoinPlan.Covers, joins, plan]; exact resolved.covers⟩
  grown := ⟨plan ▸ List.prefix_refl _, joins ▸ List.Subset.refl _⟩
  added _ member := .inl (plan ▸ member)

theorem trans (first : before.Joins registry middle) (second : middle.Joins registry after) :
    before.Joins registry after where
  resolved := second.resolved
  grown := first.grown.trans second.grown
  added j member := by
    rcases second.added j member with old | new
    · exact (first.added j old).imp_right fun inside => second.grown.joins inside
    · exact .inr new

theorem projected (first : before.Joins registry middle) (plan : after.plan = middle.plan)
    (next : after.nextTable = middle.nextTable) (base : after.scope.base = middle.scope.base) :
    before.Joins registry after :=
  first.trans (.of_same first.resolved plan next (congrArg (·.joins) base))

end State.Joins

theorem State.Joins.of_entry (resolved : state.IsResolved registry) (planned : plan.IsResolved registry)
    {next : Nat} (follows : plan.IsNext next) (grown : state.plan.entries <+: plan.entries) (member : j ∈ plan.entries)
    (new : ∀ k ∈ plan.entries, k ∈ state.plan.entries ∨ k = j) :
    state.Joins registry { state.addJoin j.join with plan := plan, nextTable := next } ∧
      j.join ∈ (state.addJoin j.join).scope.statement.joins := by
  have covers := resolved.covers.mono grown
  have standing := covers.mem_addJoin planned member
  refine ⟨⟨⟨planned, follows, covers.addJoin member⟩, ⟨grown, subset_addJoin ..⟩, fun k inside => ?_⟩, standing⟩
  rcases new k inside with old | rfl
  · exact .inl old
  · exact .inr standing

theorem State.join_joins (resolved : state.IsResolved setting.registry)
    (joins : state.join setting path a e table = .ok (after, joined)) :
    state.Joins setting.registry after ∧ ∃ j ∈ after.plan.entries, j.table = joined ∧ j.path = path ∧
      j.join ∈ after.scope.statement.joins := by
  unfold State.join at joins
  split at joins
  next entry found =>
    cases joins
    have member := List.mem_of_find?_eq_some found
    have holds := List.find?_some found
    simp only [Bool.and_eq_true, beq_iff_eq] at holds
    obtain ⟨all, standing⟩ := State.Joins.of_entry resolved resolved.plan resolved.next (List.prefix_refl _) member
      fun _ inside => .inl inside
    exact ⟨all, entry, member, rfl, holds.1, standing⟩
  next absent =>
    obtain ⟨target, leads, joins⟩ := bind_eq_ok.mp joins
    cases joins
    let entry : JoinEntry :=
      { path, subject := a, sourceEntity := e, entity := target, source := table, table := state.nextTable
        join := ⟨.leftOuter, ⟨joinedTable a target, some state.nextTable⟩,
          joinCondition setting a target table state.nextTable⟩ }
    have planned : (state.plan.add entry).IsResolved setting.registry := resolved.plan.add ⟨leads, rfl⟩ resolved.next
    have member : entry ∈ (state.plan.add entry).entries := List.mem_append_right _ (List.mem_singleton_self entry)
    obtain ⟨all, standing⟩ := State.Joins.of_entry resolved planned resolved.next.add (List.prefix_append _ _) member
      fun k inside => (List.mem_append.mp inside).imp_right List.mem_singleton.mp
    exact ⟨all, entry, member, rfl, rfl, standing⟩

section Walks

variable {entities : List Entity}

theorem walkOrAll_of_walk (resolved : state.IsResolved setting.registry)
    (walks : walk setting [target] table path nodes state = .ok after → state.Joins setting.registry after)
    (succeeded : walkOrAll setting target table path nodes state = .ok after) : state.Joins setting.registry after := by
  rcases walkOrAll_cases succeeded with ⟨-, rfl⟩ | ⟨-, walked⟩
  · exact .of_same resolved rfl rfl (congrArg (·.joins) Scope.projectColumns_base)
  · exact walks walked

mutual

theorem walk_joins (nodes : List FilterNode) {entities : List Entity} {table : Nat} {above : String}
    {state after : State} (resolved : state.IsResolved setting.registry)
    (succeeded : walk setting entities table above nodes state = .ok after) : state.Joins setting.registry after := by
  -- Induction on the tree: what the nodes before have joined stays resolved.
  match nodes with
  | [] =>
      cases succeeded
      exact .of_same resolved rfl rfl rfl
  | node :: rest =>
      obtain ⟨middle, first, succeeded⟩ := bind_eq_ok.mp succeeded
      have here := walkNode_joins node resolved first
      exact here.trans (walk_joins rest here.resolved succeeded)

theorem walkNode_joins (node : FilterNode) {entities : List Entity} {table : Nat} {above : String}
    {state after : State} (resolved : state.IsResolved setting.registry)
    (succeeded : walkNode setting entities table above node state = .ok after) :
    state.Joins setting.registry after := by
  match node with
  | ⟨item, children⟩ =>
      cases walkNode_cases succeeded with
      | passed => exact .of_same resolved rfl rfl rfl
      | counted found counts leads joins =>
          exact (State.join_joins resolved joins).1.projected rfl rfl Scope.project_base
      | collection => exact .of_same resolved rfl rfl (congrArg (·.joins) Scope.projectJoinSide_base)
      | column => exact .of_same resolved walkColumn_plan.1 walkColumn_nextTable walkColumn_joins
      | association found plain single leads joins walked =>
          have first := (State.join_joins resolved joins).1
          have below := walkOrAll_of_walk first.resolved (walk_joins children first.resolved) walked
          exact (first.trans below).projected rfl rfl finishAssociation_base

end

theorem walkOrAll_joins (resolved : state.IsResolved setting.registry)
    (succeeded : walkOrAll setting target table path nodes state = .ok after) : state.Joins setting.registry after :=
  walkOrAll_of_walk resolved (walk_joins nodes resolved) succeeded

end Walks

/-- Statements that join what a plan has got since, and nothing else than what it has. -/
structure Adds (registry : Registry) (plan after : JoinPlan) (statements : List Statement) : Prop where
  resolved : after.IsResolved registry
  grown : plan.entries <+: after.entries
  covers : ∀ s ∈ statements, after.Covers s
  added : ∀ j ∈ after.entries, j ∈ plan.entries ∨ ∃ s ∈ statements, j.join ∈ s.joins

section Statements

variable {r : Root} {c : DeferredCollection} {collections deferred later : List DeferredCollection}
  {found : List SubSelect} {sub : SubSelect} {next following : Nat} {statements others : List Statement}
  {t : FilterTree} {last : State}

theorem Adds.refl (resolved : plan.IsResolved registry) : Adds registry plan plan [] :=
  ⟨resolved, List.prefix_refl _, by simp, fun _ member => .inl member⟩

theorem Adds.trans {after : JoinPlan} (first : Adds registry plan further statements)
    (second : Adds registry further after others) : Adds registry plan after (statements ++ others) where
  resolved := second.resolved
  grown := first.grown.trans second.grown
  covers s member := by
    rcases List.mem_append.mp member with early | late
    · exact (first.covers s early).mono second.grown
    · exact second.covers s late
  added j member := by
    rcases second.added j member with old | ⟨s, late, inside⟩
    · refine (first.added j old).imp_right fun ⟨s, early, inside⟩ => ⟨s, List.mem_append_left _ early, inside⟩
    · exact .inr ⟨s, List.mem_append_right _ late, inside⟩

/-- The restriction to the roots, and the columns, leave the joins as they are. -/
theorem finish_joins (r : Root) (setting : Setting) (scope : Scope) : (Scope.finish { scope with
    statement := r.root.constrainRoot r.others setting.pointInTime scope.statement }).joins = scope.statement.joins := by
  obtain ⟨_, restricted, -⟩ : scope.statement.RestrictedTo
      (r.root.constrainRoot r.others setting.pointInTime scope.statement) :=
    Entity.restrictedTo_constrainRoot r.root r.others scope.statement
  rw [Scope.finish_eq]
  exact congrArg (·.joins) restricted

theorem State.Joins.adds {begun : State} (joins : begun.Joins registry last)
    (same : s.joins = last.scope.statement.joins) : Adds registry begun.plan last.plan [s] where
  resolved := joins.resolved.plan
  grown := joins.grown.plan
  covers s member := by
    rw [List.mem_singleton.mp member, JoinPlan.Covers, same]
    exact joins.resolved.covers
  added j member := by
    refine (joins.added j member).imp_right fun inside => ⟨_, List.mem_singleton_self _, ?_⟩
    rw [same]
    exact inside

theorem start_joins (r : Root) (enclosing : List JoinedCollection) : (r.start enclosing).statement.joins = [] := by
  rw [Root.start, Scope.project_joins]
  rfl

theorem chained_resolved (resolved : plan.IsResolved registry) (follows : plan.IsNext next) (r : Root)
    (c : DeferredCollection) (deferred : List DeferredCollection) :
    State.IsResolved registry ⟨r.chained c plan, plan, next, deferred⟩ := by
  refine ⟨resolved, follows,
    JoinPlan.Covers.foldl_addJoin (fun x member => ?_) fun x member => JoinPlan.mem_chainTo member⟩
  rw [start_joins] at member
  contradiction

theorem subSelect_adds (resolved : plan.IsResolved setting.registry) (follows : plan.IsNext next)
    (succeeded : subSelect setting r c plan next deferred = .ok (sub, further, following, later)) :
    Adds setting.registry plan further [sub.statement] ∧ further.IsNext following := by
  obtain ⟨target, reached, table, inside, -, joins, below, rfl, rfl, rfl, rfl⟩ := subSelect_cases succeeded
  have begun := chained_resolved resolved follows r c deferred
  have identified : State.Joins setting.registry ⟨r.chained c plan, plan, next, deferred⟩
      ⟨r.identified c plan, plan, next, deferred⟩ :=
    .of_same begun rfl rfl (congrArg (·.joins) (identities_base ..))
  have first := identified.trans (State.join_joins identified.resolved joins).1
  have entered : State.Joins setting.registry ⟨r.chained c plan, plan, next, deferred⟩ (reached.mapScope fun s =>
      { s with enclosing := s.enclosing ++ [⟨c.path, target, table⟩] }) :=
    first.trans (.of_same first.resolved rfl rfl rfl)
  have walked := entered.trans (walkOrAll_joins entered.resolved below)
  have side : ((inside.scope.projectIdentity target table c.path).projectJoinSide target
      (c.subject.joinColumns.map (·.target)) table c.path).base = inside.scope.base := by
    rw [Scope.projectJoinSide_base, Scope.projectIdentity_base]
  exact ⟨walked.adds ((finish_joins r setting _).trans (congrArg (·.joins) side)), walked.resolved.next⟩

theorem subSelects_adds (resolved : plan.IsResolved setting.registry) (follows : plan.IsNext next)
    (succeeded : subSelects setting r collections plan next deferred = .ok (found, further, following, later)) :
    Adds setting.registry plan further (found.map (·.statement)) ∧ further.IsNext following := by
  induction collections generalizing plan next deferred found with
  | nil =>
      cases succeeded
      exact ⟨.refl resolved, follows⟩
  | cons c rest ih =>
      obtain ⟨⟨first, middle, number, between⟩, firstMade, succeeded⟩ := bind_eq_ok.mp succeeded
      obtain ⟨⟨others, last, final, remaining⟩, othersMade, succeeded⟩ := bind_eq_ok.mp succeeded
      cases succeeded
      obtain ⟨here, middleNext⟩ := subSelect_adds resolved follows firstMade
      obtain ⟨there, lastNext⟩ := ih here.resolved middleNext othersMade
      exact ⟨here.trans there, lastNext⟩

theorem rounds_adds {levels : Nat} (resolved : plan.IsResolved setting.registry) (follows : plan.IsNext next)
    (succeeded : rounds setting r levels deferred plan next = .ok (found, further)) :
    Adds setting.registry plan further (found.map (·.statement)) := by
  induction levels generalizing deferred plan next found with
  | zero =>
      cases succeeded
      exact .refl resolved
  | succ levels ih =>
      unfold rounds at succeeded
      split at succeeded
      · cases succeeded
        exact .refl resolved
      · obtain ⟨⟨first, middle, number, between⟩, firstMade, succeeded⟩ := bind_eq_ok.mp succeeded
        obtain ⟨⟨others, last⟩, othersMade, succeeded⟩ := bind_eq_ok.mp succeeded
        cases succeeded
        obtain ⟨here, middleNext⟩ := subSelects_adds resolved follows firstMade
        rw [List.map_append]
        exact here.trans (ih here.resolved middleNext othersMade)

theorem primary_adds (succeeded : primary setting r t = .ok last) (same : s.joins = last.scope.finish.joins) :
    Adds setting.registry ⟨[]⟩ last.plan [s] ∧ last.plan.IsNext last.nextTable := by
  obtain ⟨inside, walked, succeeded⟩ := bind_eq_ok.mp succeeded
  cases succeeded
  have begun : State.IsResolved setting.registry ⟨r.start [], {}, 1, []⟩ := by
    refine ⟨JoinPlan.isResolved_empty, .empty, fun x member => ?_⟩
    rw [start_joins] at member
    contradiction
  have all : State.Joins setting.registry ⟨r.start [], {}, 1, []⟩ ⟨if t.nodes.isEmpty then
      (r.start []).projectColumns r.root.scalars 0 "" else r.start [], {}, 1, []⟩ := by
    refine .of_same begun rfl rfl ?_
    split
    · exact congrArg (·.joins) Scope.projectColumns_base
    · rfl
  have walked := all.trans (walk_joins t.nodes all.resolved walked)
  have finished : (finishRoot r inside.scope).base = inside.scope.base := by
    unfold finishRoot
    cases r.root.discriminator with
    | none => exact Scope.projectIdentity_base
    | some d => exact Scope.projectColumn_base.trans Scope.projectIdentity_base
  exact ⟨walked.adds (same.trans ((finish_joins r setting _).trans (congrArg (·.joins) finished))),
    walked.resolved.next⟩

end Statements

end Compile

namespace CompiledView

/-- The statement for the root rows, and those for the collections. -/
def statements (v : CompiledView) : List Statement :=
  v.primary :: v.subSelects.map (·.statement)

/-- The tables that are joined for a path, under the numbers that the plan has for it. -/
def readTables (v : CompiledView) (path : String) : List String :=
  ((v.statements.flatMap (·.joins)).filter fun x =>
    v.joinPlan.entries.any fun j => j.path == path && x.table.number == some j.table).map (·.table.table)

end CompiledView

section Compiled

variable {settings : ViewSettings} {dialect : Dialect} {pointInTime : Option Timestamp} {page : Page} {t : FilterTree}
  {v : CompiledView}

theorem compile_adds (compiled : compile registry settings dialect pointInTime page t = .ok v) :
    Adds registry ⟨[]⟩ v.joinPlan v.statements := by
  obtain ⟨last, primary, compiled⟩ := bind_eq_ok.mp compiled
  obtain ⟨⟨found, plan⟩, collections, compiled⟩ := bind_eq_ok.mp compiled
  cases compiled
  obtain ⟨paged, follows⟩ := primary_adds
    (s := { last.scope.finish with offset := page.offset, limit := page.limit.or settings.defaultLimit }) primary rfl
  exact paged.trans (rounds_adds paged.resolved follows collections)

theorem mem_readTables (compiled : compile registry settings dialect pointInTime page t = .ok v) {path name : String} :
    name ∈ v.readTables path ↔ ∃ j ∈ v.joinPlan.entries, j.path = path ∧ joinedTable j.subject j.entity = name := by
  have adds := compile_adds compiled
  constructor
  · intro read
    obtain ⟨x, member, rfl⟩ := List.mem_map.mp read
    obtain ⟨joined, planned⟩ := List.mem_filter.mp member
    obtain ⟨s, isStatement, inside⟩ := List.mem_flatMap.mp joined
    obtain ⟨j, isEntry, holds⟩ := List.any_eq_true.mp planned
    rw [Bool.and_eq_true, beq_iff_eq, beq_iff_eq] at holds
    obtain ⟨k, other, rfl⟩ := adds.covers s isStatement x inside
    have table := (adds.resolved.entries k other).table
    rw [table, Option.some.injEq] at holds
    obtain rfl := adds.resolved.eq_of_table other isEntry holds.2
    exact ⟨k, isEntry, holds.1, by rw [table]⟩
  · rintro ⟨j, member, rfl, rfl⟩
    have table := (adds.resolved.entries j member).table
    obtain ⟨s, isStatement, inside⟩ := (adds.added j member).resolve_left List.not_mem_nil
    refine List.mem_map.mpr
      ⟨j.join, List.mem_filter.mpr ⟨List.mem_flatMap.mpr ⟨s, isStatement, inside⟩, ?_⟩, by rw [table]⟩
    refine List.any_eq_true.mpr ⟨j, member, ?_⟩
    simp [table]

end Compiled

end ViewEngine
