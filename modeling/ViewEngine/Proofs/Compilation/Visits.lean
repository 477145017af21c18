import Mathlib.Logic.Relation
import ViewEngine.Proofs.Compilation.Plans
import ViewEngine.Proofs.Compilation.Projected

/-!
The walk over a tree as a sequence of visits, each of which adds one join, one column, one condition with
its column, or one collection for later. What is to hold of a statement is shown of each visit.
-/

namespace ViewEngine

open Compile JoinPlan

mutual

def FilterNode.items : FilterNode → List FilterItem
  | ⟨item, children⟩ => item :: FilterNode.itemsOfAll children

def FilterNode.itemsOfAll : List FilterNode → List FilterItem
  | [] => []
  | n :: rest => n.items ++ FilterNode.itemsOfAll rest

end

theorem FilterNode.itemsOfAll_append (nodes others : List FilterNode) :
    itemsOfAll (nodes ++ others) = itemsOfAll nodes ++ itemsOfAll others := by
  induction nodes with
  | nil => rfl
  | cons n rest ih => rw [List.cons_append, itemsOfAll, itemsOfAll, ih, List.append_assoc]

/-- Attributes that an entity has, or by which its rows are dated or told apart. -/
inductive Entity.Offers (e : Entity) : Attribute → Prop
  | attribute {a : Attribute} (member : a ∈ e.attributes) : Offers e a
  | opening {version : VersionColumns} (declared : e.version = some version) : Offers e version.opening
  | discriminator {d : Discriminator} (declared : e.discriminator = some d) : Offers e d.subject

namespace Compile

variable {setting : Setting} {roots : List Entity} {asked : FilterItem → Prop}

def Encloses (plan : JoinPlan) (roots : List Entity) (way : List JoinEntry) (c : JoinedCollection) : Prop :=
  ∃ inner, inner <+: way ∧ plan.Leads roots inner [c.entity] c.table c.path

structure IsDeferred (roots : List Entity) (asked : FilterItem → Prop) (plan : JoinPlan)
    (c : DeferredCollection) : Prop where
  reached : ∃ way es above, plan.Leads roots way es c.sourceTable above ∧
    declarer? es c.subject.property = some (c.sourceEntity, c.subject) ∧
    c.path = Path.child above c.subject.property ∧ ∀ outer ∈ c.enclosing, Encloses plan roots way outer
  asked : ∀ item ∈ FilterNode.itemsOfAll c.nodes, asked item

structure Stands (roots : List Entity) (state : State) (way : List JoinEntry) (es : List Entity) (table : Nat)
    (path : String) : Prop where
  leads : state.plan.Leads roots way es table path
  joined : ∀ j ∈ way, j.join ∈ state.scope.statement.joins

inductive Visit (setting : Setting) (roots : List Entity) (asked : FilterItem → Prop) : State → State → Prop
  | join {state after : State} {way : List JoinEntry} {es : List Entity} {table joined : Nat} {above : String}
      {e target : Entity} {a : Attribute} (stands : Stands roots state way es table above)
      (declared : declarer? es a.property = some (e, a)) (found : setting.registry.targetOf a = .ok target)
      (joins : state.join setting (Path.child above a.property) a e table = .ok (after, joined)) :
      Visit setting roots asked state after
  | column {state : State} {way : List JoinEntry} {es : List Entity} {table : Nat} {path : String} {e : Entity}
      {a : Attribute} (stands : Stands roots state way es table path) (member : e ∈ es) (offers : e.Offers a) :
      Visit setting roots asked state (state.mapScope (·.projectColumn a table path))
  | item {state : State} {way : List JoinEntry} {es : List Entity} {table : Nat} {above : String} {e : Entity}
      {a : Attribute} {item : FilterItem} (stands : Stands roots state way es table above) (member : e ∈ es)
      (inside : a ∈ e.attributes) (isAsked : asked item) (same : a.id = item.subject.id) :
      Visit setting roots asked state (walkColumn item a table (Path.child above a.property) state)
  | aggregate {state : State} {way : List JoinEntry} {es : List Entity} {table : Nat} {path name key : String}
      (stands : Stands roots state way es table path) (label : String) : Visit setting roots asked state
        (state.mapScope fun s => s.project (.function name [.wholeRow table key]) label none .aggregate)
  | defer {state : State} {c : DeferredCollection} (deferred : IsDeferred roots asked state.plan c) :
      Visit setting roots asked state { state with deferred := defer c state.deferred }
  | enter {state : State} {way : List JoinEntry} {c : JoinedCollection}
      (stands : Stands roots state way [c.entity] c.table c.path) : Visit setting roots asked state
        (state.mapScope fun s => { s with enclosing := s.enclosing ++ [c] })

/-- What the plan of a view, and the statement at hand, are made of. -/
structure State.IsBuilt (setting : Setting) (roots : List Entity) (asked : FilterItem → Prop) (state : State) :
    Prop where
  plan : state.plan.IsBuilt setting roots
  next : state.plan.IsNext state.nextTable
  scope : state.scope.IsInStep
  joins : ∀ x ∈ state.scope.statement.joins, ∃ j ∈ state.plan.entries, j.join = x
  deferred : ∀ c ∈ state.deferred, IsDeferred roots asked state.plan c

structure State.Grown (before after : State) : Prop where
  plan : before.plan.entries <+: after.plan.entries
  joins : before.scope.statement.joins ⊆ after.scope.statement.joins

section Growth

variable {plan further : JoinPlan} {before state after : State} {way : List JoinEntry} {es : List Entity}
  {table : Nat} {path : String} {c : DeferredCollection} {outer : JoinedCollection}

theorem Encloses.mono (encloses : Encloses plan roots way outer) (grown : plan.entries <+: further.entries) :
    Encloses further roots way outer := by
  obtain ⟨inner, start, leads⟩ := encloses
  exact ⟨inner, start, leads.mono fun j member => grown.subset member⟩

theorem Encloses.of_start {longer : List JoinEntry} (encloses : Encloses plan roots way outer)
    (start : way <+: longer) : Encloses plan roots longer outer := by
  obtain ⟨inner, before, leads⟩ := encloses
  exact ⟨inner, before.trans start, leads⟩

theorem IsDeferred.mono (deferred : IsDeferred roots asked plan c) (grown : plan.entries <+: further.entries) :
    IsDeferred roots asked further c := by
  obtain ⟨⟨way, es, above, leads, declared, named, encloses⟩, isAsked⟩ := deferred
  exact ⟨⟨way, es, above, leads.mono fun j member => grown.subset member, declared, named,
    fun outer member => (encloses outer member).mono grown⟩, isAsked⟩

theorem State.Grown.refl (state : State) : state.Grown state :=
  ⟨List.prefix_refl _, List.Subset.refl _⟩

theorem State.Grown.trans (first : before.Grown state) (second : state.Grown after) : before.Grown after :=
  ⟨first.plan.trans second.plan, List.Subset.trans first.joins second.joins⟩

theorem Stands.mono (stands : Stands roots before way es table path) (grown : before.Grown after) :
    Stands roots after way es table path :=
  ⟨stands.leads.mono fun _ member => grown.plan.subset member, fun j member => grown.joins (stands.joined j member)⟩

end Growth

section Scope

variable {s : Scope} {expr : Sql.Expr} {label path : String} {subject : Option Attribute} {kind : ColumnKind}
  {a : Attribute} {table : Nat} {item : FilterItem} {state : State} {x : Sql.Join}

theorem walkColumn_joins :
    (walkColumn item a table path state).scope.statement.joins = state.scope.statement.joins := by
  unfold walkColumn
  split
  · rfl
  · dsimp only [State.mapScope]
    split
    · split <;> exact (congrArg (·.joins) Scope.project_base)
    · split <;> exact (congrArg (·.joins) Scope.project_base)

theorem walkColumn_plan : (walkColumn item a table path state).plan = state.plan ∧
    (walkColumn item a table path state).deferred = state.deferred := by
  unfold walkColumn
  split <;> exact ⟨rfl, rfl⟩

theorem walkColumn_nextTable : (walkColumn item a table path state).nextTable = state.nextTable := by
  unfold walkColumn
  split <;> rfl

theorem walkColumn_enclosing :
    (walkColumn item a table path state).scope.enclosing = state.scope.enclosing := by
  unfold walkColumn
  split
  · rfl
  · dsimp only [State.mapScope]
    split <;> simp only [Scope.project_enclosing]

theorem mem_addJoin {s : Sql.Statement} {join : Sql.Join} (member : x ∈ (s.addJoin join).joins) :
    x ∈ s.joins ∨ x = join := by
  unfold Sql.Statement.addJoin at member
  split at member
  · exact .inl member
  · exact (List.mem_append.mp member).imp_right List.mem_singleton.mp

theorem subset_addJoin (s : Sql.Statement) (join : Sql.Join) : s.joins ⊆ (s.addJoin join).joins := by
  unfold Sql.Statement.addJoin
  split
  · exact List.Subset.refl _
  · exact List.subset_append_left _ _

/-- A join is in the statement once it has been added, if no other one is of its table. -/
theorem mem_addJoin_of_known {s : Sql.Statement} {join : Sql.Join}
    (known : ∀ x ∈ s.joins, x.table = join.table → x = join) : join ∈ (s.addJoin join).joins := by
  unfold Sql.Statement.addJoin
  split
  next there =>
    obtain ⟨x, inside, same⟩ := List.any_eq_true.mp there
    simp only [Sql.Join.equal, Bool.and_eq_true, beq_iff_eq] at same
    rwa [known x inside same.1.2] at inside
  next => exact List.mem_append_right _ (List.mem_singleton_self _)

theorem mem_addJoin_self {plan : JoinPlan} (built : plan.IsBuilt setting roots) {s : Sql.Statement}
    (joins : ∀ x ∈ s.joins, ∃ j ∈ plan.entries, j.join = x) {j : JoinEntry} (member : j ∈ plan.entries) :
    j.join ∈ (s.addJoin j.join).joins := by
  refine mem_addJoin_of_known fun x inside tables => ?_
  obtain ⟨k, other, rfl⟩ := joins x inside
  rw [(built.entries k other).join, (built.entries j member).join, Sql.TableReference.mk.injEq,
    Option.some.injEq] at tables
  rw [built.eq_of_table other member tables.2]

end Scope

theorem mem_defer {c d : DeferredCollection} {deferred : List DeferredCollection}
    (member : d ∈ defer c deferred) :
    d = c ∨ d ∈ deferred ∨ ∃ other ∈ deferred, d = { other with nodes := other.nodes ++ c.nodes } := by
  induction deferred with
  | nil => exact .inl (List.mem_singleton.mp member)
  | cons other rest ih =>
      unfold Compile.defer at member
      split at member
      · rcases List.mem_cons.mp member with rfl | later
        · exact .inr (.inr ⟨other, List.mem_cons_self .., rfl⟩)
        · exact .inr (.inl (List.mem_cons_of_mem _ later))
      · rcases List.mem_cons.mp member with rfl | later
        · exact .inr (.inl (List.mem_cons_self ..))
        · rcases ih later with same | old | ⟨other, inside, same⟩
          · exact .inl same
          · exact .inr (.inl (List.mem_cons_of_mem _ old))
          · exact .inr (.inr ⟨other, List.mem_cons_of_mem _ inside, same⟩)

section Visits

variable {before state after : State} {way : List JoinEntry} {es : List Entity} {table joined : Nat}
  {above path : String} {e target : Entity} {a : Attribute}

theorem join_stands (addressable : setting.IsAddressable roots) (built : state.IsBuilt setting roots asked)
    (stands : Stands roots state way es table above) (declared : declarer? es a.property = some (e, a))
    (found : setting.registry.targetOf a = .ok target)
    (succeeded : state.join setting (Path.child above a.property) a e table = .ok (after, joined)) :
    ∃ j, joined = j.table ∧ after.plan.Joins e a table above target j ∧
      Stands roots after (way ++ [j]) [target] joined (Path.child above a.property) ∧
      after.IsBuilt setting roots asked ∧ state.Grown after ∧ after.scope.enclosing = state.scope.enclosing ∧
      after.deferred = state.deferred := by
  have inStep := join_isInStep built.scope succeeded
  obtain ⟨j, plan, number, rfl, rfl, planBuilt, next, grown, joins⟩ :=
    join_eq addressable built.plan built.next stands.leads declared found succeeded
  have joinsOld : ∀ x ∈ state.scope.statement.joins, ∃ k ∈ plan.entries, k.join = x := fun x member =>
    (built.joins x member).imp fun k found => ⟨grown.subset found.1, found.2⟩
  have isGrown : state.Grown { state.addJoin j.join with plan := plan, nextTable := number } :=
    ⟨grown, subset_addJoin state.scope.statement j.join⟩
  refine ⟨j, rfl, joins, ⟨?_, fun k member => ?_⟩,
    ⟨planBuilt, next, inStep, fun x member => ?_, fun c member => ?_⟩, isGrown, rfl, rfl⟩
  · exact joins.leads (stands.mono isGrown).leads declared
  · rcases List.mem_append.mp member with old | last
    · exact isGrown.joins (stands.joined k old)
    · rw [List.mem_singleton.mp last]
      exact mem_addJoin_self planBuilt joinsOld joins.member
  · rcases mem_addJoin member with old | rfl
    · exact joinsOld x old
    · exact ⟨j, joins.member, rfl⟩
  · exact (built.deferred c member).mono grown

theorem Visit.built_grown (addressable : setting.IsAddressable roots) (built : state.IsBuilt setting roots asked)
    (visit : Visit setting roots asked state after) : after.IsBuilt setting roots asked ∧ state.Grown after := by
  have unchanged {other : State} (plan : other.plan = state.plan) (next : other.nextTable = state.nextTable)
      (deferred : other.deferred = state.deferred) (inStep : other.scope.IsInStep)
      (joins : other.scope.statement.joins = state.scope.statement.joins) :
      other.IsBuilt setting roots asked ∧ state.Grown other := by
    refine ⟨⟨plan ▸ built.plan, ?_, inStep, ?_, ?_⟩, ⟨plan ▸ List.prefix_refl _, joins ▸ List.Subset.refl _⟩⟩
    · rw [plan, next]
      exact built.next
    · rw [joins, plan]
      exact built.joins
    · rw [deferred, plan]
      exact built.deferred
  cases visit with
  | join stands declared found joins =>
      obtain ⟨j, -, -, -, afterBuilt, grown, -, -⟩ := join_stands addressable built stands declared found joins
      exact ⟨afterBuilt, grown⟩
  | column => exact unchanged rfl rfl rfl (built.scope.projectColumn ..) Scope.projectColumn_joins
  | item =>
      exact unchanged walkColumn_plan.1 walkColumn_nextTable walkColumn_plan.2 (walkColumn_isInStep built.scope)
        walkColumn_joins
  | aggregate => exact unchanged rfl rfl rfl (built.scope.project ..) Scope.project_joins
  | defer isDeferred =>
      refine ⟨⟨built.plan, built.next, built.scope, built.joins, fun c member => ?_⟩,
        ⟨List.prefix_refl _, List.Subset.refl _⟩⟩
      rcases mem_defer member with rfl | old | ⟨other, inside, rfl⟩
      · exact isDeferred
      · exact built.deferred c old
      · obtain ⟨reached, isAsked⟩ := built.deferred other inside
        refine ⟨reached, fun item among => ?_⟩
        rw [FilterNode.itemsOfAll_append] at among
        exact (List.mem_append.mp among).elim (isAsked item) (isDeferred.asked item)
  | enter => exact unchanged rfl rfl rfl (built.scope.changed rfl rfl) rfl

structure Walked (setting : Setting) (roots : List Entity) (asked : FilterItem → Prop) (before after : State) :
    Prop where
  visits : Relation.ReflTransGen (Visit setting roots asked) before after
  enclosing : after.scope.enclosing = before.scope.enclosing

theorem Walked.refl (state : State) : Walked setting roots asked state state :=
  ⟨.refl, rfl⟩

theorem Walked.trans (first : Walked setting roots asked before state)
    (second : Walked setting roots asked state after) : Walked setting roots asked before after :=
  ⟨first.visits.trans second.visits, second.enclosing.trans first.enclosing⟩

theorem Walked.of_visit (visit : Visit setting roots asked before after)
    (enclosing : after.scope.enclosing = before.scope.enclosing) : Walked setting roots asked before after :=
  ⟨.single visit, enclosing⟩

theorem visits_built_grown (addressable : setting.IsAddressable roots) (built : before.IsBuilt setting roots asked)
    (visits : Relation.ReflTransGen (Visit setting roots asked) before after) :
    after.IsBuilt setting roots asked ∧ before.Grown after := by
  induction visits with
  | refl => exact ⟨built, .refl _⟩
  | tail _ visit ih =>
      obtain ⟨isBuilt, grown⟩ := visit.built_grown addressable ih.1
      exact ⟨isBuilt, ih.2.trans grown⟩

theorem Walked.built (addressable : setting.IsAddressable roots) (built : before.IsBuilt setting roots asked)
    (walked : Walked setting roots asked before after) : after.IsBuilt setting roots asked :=
  (visits_built_grown addressable built walked.visits).1

theorem Walked.grown (addressable : setting.IsAddressable roots) (built : before.IsBuilt setting roots asked)
    (walked : Walked setting roots asked before after) : before.Grown after :=
  (visits_built_grown addressable built walked.visits).2

theorem projectColumns_walked (addressable : setting.IsAddressable roots)
    (built : state.IsBuilt setting roots asked) (stands : Stands roots state way es table path) (member : e ∈ es)
    {attributes : List Attribute} (offered : ∀ a ∈ attributes, e.Offers a) :
    Walked setting roots asked state (state.mapScope (·.projectColumns attributes table path)) := by
  induction attributes generalizing state with
  | nil => exact .refl _
  | cons a rest ih =>
      have first : Walked setting roots asked state (state.mapScope (·.projectColumn a table path)) :=
        .of_visit (.column stands member (offered a (List.mem_cons_self ..))) Scope.projectColumn_enclosing
      exact first.trans (ih (first.built addressable built) (stands.mono (first.grown addressable built))
        fun b later => offered b (List.mem_cons_of_mem _ later))

theorem projectIdentity_walked (addressable : setting.IsAddressable roots)
    (built : state.IsBuilt setting roots asked) (stands : Stands roots state way es table path) (member : e ∈ es) :
    Walked setting roots asked state (state.mapScope (·.projectIdentity e table path)) := by
  have keyed : Walked setting roots asked state (state.mapScope (·.projectColumns e.identityKeys table path)) :=
    projectColumns_walked addressable built stands member fun a key => .attribute (Entity.mem_identityKeys_iff.mp key).1
  unfold Scope.projectIdentity
  cases declared : e.version with
  | none => exact keyed
  | some version =>
      exact keyed.trans (.of_visit (.column (stands.mono (keyed.grown addressable built)) member (.opening declared))
        Scope.projectColumn_enclosing)

theorem projectJoinSide_walked (addressable : setting.IsAddressable roots)
    (built : state.IsBuilt setting roots asked) (stands : Stands roots state way es table path) (member : e ∈ es)
    (columns : List String) :
    Walked setting roots asked state (state.mapScope (·.projectJoinSide e columns table path)) := by
  refine projectColumns_walked addressable built stands member fun a joined => ?_
  obtain ⟨column, -, found⟩ := List.mem_filterMap.mp (List.mem_filter.mp joined).1
  exact .attribute (List.mem_of_find?_eq_some found)

end Visits

section Nodes

variable {state after : State} {es : List Entity} {table : Nat} {above path : String} {e target : Entity} {a : Attribute}
  {item : FilterItem} {nodes children : List FilterNode}

/-- What a walk does at a node. The node is passed over, its rows are counted, it is put down as a collection, its column
is taken, or an association is joined and the walk goes on below it. -/
inductive WalksNode (setting : Setting) (es : List Entity) (table : Nat) (above : String) (item : FilterItem)
    (children : List FilterNode) (state : State) : State → Prop
  | passed (found : resolve? item es = none) : WalksNode setting es table above item children state state
  | counted {e target : Entity} {a : Attribute} {aggregate : Aggregate} {reached : State} {joined : Nat}
      (found : resolve? item es = some (e, a)) (counts : item.aggregate = some aggregate)
      (leads : setting.registry.targetOf a = .ok target)
      (joins : state.join setting (Path.child above a.property) a e table = .ok (reached, joined)) :
      WalksNode setting es table above item children state (reached.mapScope fun s => s.project
        (.function aggregate.functionName [.wholeRow joined (((target.identityKeys.head?).bind (·.column)).getD "")])
        (item.outputName.getD (Path.child above a.property)) none .aggregate)
  | collection {e : Entity} {a : Attribute} (found : resolve? item es = some (e, a)) (plain : item.aggregate = none)
      (collection : a.isCollection = true) : WalksNode setting es table above item children state
        (walkCollection children a e table above (Path.child above a.property) state)
  | column {e : Entity} {a : Attribute} (found : resolve? item es = some (e, a)) (plain : item.aggregate = none)
      (isColumn : a.isAssociation = false) : WalksNode setting es table above item children state
        (walkColumn item a table (Path.child above a.property) state)
  | association {e target : Entity} {a : Attribute} {reached inside : State} {joined : Nat}
      (found : resolve? item es = some (e, a)) (plain : item.aggregate = none) (single : a.isCollection = false)
      (leads : setting.registry.targetOf a = .ok target)
      (joins : state.join setting (Path.child above a.property) a e table = .ok (reached, joined))
      (walked : walkOrAll setting target joined (Path.child above a.property) children reached = .ok inside) :
      WalksNode setting es table above item children state
        (finishAssociation a e target table joined above (Path.child above a.property) inside)

/-- An association to one row is joined. Then the nodes below it are walked, or all its columns are taken, and then it
gets its keys. -/
theorem walkNode_association (found : resolve? item es = some (e, a)) (plain : item.aggregate = none)
    (single : a.isCollection = false) (isAssociation : a.isAssociation = true) (table : Nat) (above : String)
    (children : List FilterNode) (state : State) : walkNode setting es table above ⟨item, children⟩ state = (do
      let target ← setting.registry.targetOf a
      let joined ← state.join setting (Path.child above a.property) a e table
      let inside ← walkOrAll setting target joined.2 (Path.child above a.property) children joined.1
      return finishAssociation a e target table joined.2 above (Path.child above a.property) inside) := by
  rw [walkNode, found]
  dsimp only
  rw [plain]
  dsimp only
  rw [single, isAssociation, if_neg Bool.false_ne_true, if_pos rfl]
  refine bind_congr fun target => bind_congr fun joined => ?_
  unfold walkOrAll
  split <;> rfl

theorem walkNode_cases (succeeded : walkNode setting es table above ⟨item, children⟩ state = .ok after) :
    WalksNode setting es table above item children state after := by
  cases found : resolve? item es with
  | none =>
      rw [walkNode, found] at succeeded
      cases succeeded
      exact .passed found
  | some pair =>
      obtain ⟨e, a⟩ := pair
      cases counted : item.aggregate with
      | some aggregate =>
          simp only [walkNode, found, counted] at succeeded
          obtain ⟨target, leads, succeeded⟩ := bind_eq_ok.mp succeeded
          obtain ⟨⟨reached, joined⟩, joins, succeeded⟩ := bind_eq_ok.mp succeeded
          cases succeeded
          exact .counted found counted leads joins
      | none =>
          cases collection : a.isCollection with
          | true =>
              simp only [walkNode, found, counted, collection, if_true] at succeeded
              cases succeeded
              exact .collection found counted collection
          | false =>
              cases isAssociation : a.isAssociation with
              | false =>
                  simp only [walkNode, found, counted, collection, isAssociation, Bool.false_eq_true, if_false]
                    at succeeded
                  cases succeeded
                  exact .column found counted isAssociation
              | true =>
                  rw [walkNode_association found counted collection isAssociation] at succeeded
                  obtain ⟨target, leads, succeeded⟩ := bind_eq_ok.mp succeeded
                  obtain ⟨⟨reached, joined⟩, joins, succeeded⟩ := bind_eq_ok.mp succeeded
                  obtain ⟨inside, walked, succeeded⟩ := bind_eq_ok.mp succeeded
                  cases succeeded
                  exact .association found counted collection leads joins walked

/-- Below what has been joined, all columns are taken where nothing is asked for. -/
theorem walkOrAll_cases (succeeded : walkOrAll setting target table path nodes state = .ok after) :
    (nodes = [] ∧ after = state.mapScope fun s => s.projectColumns target.scalars table path) ∨
      (nodes ≠ [] ∧ walk setting [target] table path nodes state = .ok after) := by
  unfold walkOrAll at succeeded
  split at succeeded
  next empty =>
    cases succeeded
    exact .inl ⟨List.isEmpty_iff.mp empty, rfl⟩
  next filled => exact .inr ⟨fun empty => filled (List.isEmpty_iff.mpr empty), succeeded⟩

theorem walkOrAll_isInStep_of_walk (inStep : state.scope.IsInStep)
    (walks : walk setting [target] table path nodes state = .ok after → after.scope.IsInStep)
    (succeeded : walkOrAll setting target table path nodes state = .ok after) : after.scope.IsInStep := by
  rcases walkOrAll_cases succeeded with ⟨-, rfl⟩ | ⟨-, walked⟩
  · exact inStep.projectColumns ..
  · exact walks walked

mutual

theorem walk_isInStep (nodes : List FilterNode) {es : List Entity} {table : Nat} {above : String}
    {state after : State} (inStep : state.scope.IsInStep)
    (succeeded : walk setting es table above nodes state = .ok after) : after.scope.IsInStep := by
  match nodes with
  | [] =>
      cases succeeded
      exact inStep
  | node :: rest =>
      obtain ⟨middle, first, succeeded⟩ := bind_eq_ok.mp succeeded
      exact walk_isInStep rest (walkNode_isInStep node inStep first) succeeded

theorem walkNode_isInStep (node : FilterNode) {es : List Entity} {table : Nat} {above : String}
    {state after : State} (inStep : state.scope.IsInStep)
    (succeeded : walkNode setting es table above node state = .ok after) : after.scope.IsInStep := by
  match node with
  | ⟨item, children⟩ =>
      cases walkNode_cases succeeded with
      | passed => exact inStep
      | counted found counts leads joins => exact (join_isInStep inStep joins).project ..
      | collection => exact inStep.projectJoinSide ..
      | column => exact walkColumn_isInStep inStep
      | association found plain single leads joins walked =>
          have reached := join_isInStep inStep joins
          have below := walkOrAll_isInStep_of_walk reached (walk_isInStep children reached) walked
          exact ((below.projectIdentity ..).projectJoinSide ..).projectJoinSide ..

end

theorem walkOrAll_isInStep (inStep : state.scope.IsInStep)
    (succeeded : walkOrAll setting target table path nodes state = .ok after) : after.scope.IsInStep :=
  walkOrAll_isInStep_of_walk inStep (walk_isInStep nodes inStep) succeeded

theorem begun_isInStep (r : Root) (nodes : List FilterNode) :
    (if nodes.isEmpty then (r.start []).projectColumns r.root.scalars 0 "" else r.start []).IsInStep := by
  split
  · exact (start_isInStep r []).projectColumns ..
  · exact start_isInStep r []

theorem primary_isInStep {r : Root} {t : FilterTree} {last : State} (succeeded : primary setting r t = .ok last) :
    last.scope.IsInStep := by
  obtain ⟨inside, walked, succeeded⟩ := bind_eq_ok.mp succeeded
  cases succeeded
  have identified := (walk_isInStep t.nodes (begun_isInStep r t.nodes) walked).projectIdentity r.root 0 ""
  have finished : (finishRoot r inside.scope).IsInStep := by
    unfold finishRoot
    split
    · exact identified.projectColumn ..
    · exact identified
  exact finished.constrainRoot ..

end Nodes

section Walk

variable {state after : State} {way : List JoinEntry} {es : List Entity} {table : Nat} {above path : String}
  {e : Entity} {a : Attribute} {item : FilterItem} {children : List FilterNode}

/-- A node that stands in the statement, on the way of the collections that are joined so far. -/
structure StandsWithin (roots : List Entity) (state : State) (way : List JoinEntry) (es : List Entity)
    (table : Nat) (path : String) : Prop where
  stands : Stands roots state way es table path
  encloses : ∀ outer ∈ state.scope.enclosing, Encloses state.plan roots way outer

theorem StandsWithin.walked (within : StandsWithin roots state way es table path)
    (addressable : setting.IsAddressable roots) (built : state.IsBuilt setting roots asked)
    (walked : Walked setting roots asked state after) : StandsWithin roots after way es table path where
  stands := within.stands.mono (walked.grown addressable built)
  encloses outer member := by
    rw [walked.enclosing] at member
    exact (within.encloses outer member).mono (walked.grown addressable built).plan

theorem join_walked (addressable : setting.IsAddressable roots) (built : state.IsBuilt setting roots asked)
    (within : StandsWithin roots state way es table above) (declared : declarer? es a.property = some (e, a))
    {target : Entity} (found : setting.registry.targetOf a = .ok target) {joined : Nat}
    (succeeded : state.join setting (Path.child above a.property) a e table = .ok (after, joined)) :
    Walked setting roots asked state after ∧ after.IsBuilt setting roots asked ∧
      StandsWithin roots after way es table above ∧
      ∃ j, StandsWithin roots after (way ++ [j]) [target] joined (Path.child above a.property) := by
  obtain ⟨j, -, -, stands, afterBuilt, grown, enclosing, -⟩ :=
    join_stands addressable built within.stands declared found succeeded
  have walked : Walked setting roots asked state after :=
    .of_visit (.join within.stands declared found succeeded) enclosing
  have afterwards := within.walked addressable built walked
  exact ⟨walked, afterBuilt, afterwards, j, stands, fun outer member =>
    (afterwards.encloses outer member).of_start (List.prefix_append _ _)⟩

theorem walkCollection_walked (addressable : setting.IsAddressable roots)
    (built : state.IsBuilt setting roots asked) (within : StandsWithin roots state way es table above)
    (declared : declarer? es a.property = some (e, a))
    (isAsked : ∀ item ∈ FilterNode.itemsOfAll children, asked item) :
    Walked setting roots asked state
      (walkCollection children a e table above (Path.child above a.property) state) := by
  have side := projectJoinSide_walked addressable built within.stands (declarer?_eq_some declared).1
    (a.joinColumns.map (·.source))
  have within := within.walked addressable built side
  exact side.trans (.of_visit (.defer ⟨⟨way, es, above, within.stands.leads, declared, rfl, within.encloses⟩,
    isAsked⟩) rfl)

theorem finishAssociation_walked (addressable : setting.IsAddressable roots)
    (built : state.IsBuilt setting roots asked) (within : StandsWithin roots state way es table above)
    (declared : declarer? es a.property = some (e, a)) {j : JoinEntry} {target : Entity} {joined : Nat}
    (there : StandsWithin roots state (way ++ [j]) [target] joined path) :
    Walked setting roots asked state (finishAssociation a e target table joined above path state) := by
  have identity := projectIdentity_walked addressable built there.stands (List.mem_singleton_self target)
  have builtNext := identity.built addressable built
  have side := projectJoinSide_walked addressable builtNext
    (within.walked addressable built identity).stands (declarer?_eq_some declared).1 (a.joinColumns.map (·.source))
  have both := identity.trans side
  exact both.trans (projectJoinSide_walked addressable (both.built addressable built)
    (there.walked addressable built both).stands (List.mem_singleton_self target) _)

theorem walkOrAll_of_walked (addressable : setting.IsAddressable roots) (built : state.IsBuilt setting roots asked)
    {target : Entity} {nodes : List FilterNode} (within : StandsWithin roots state way [target] table path)
    (walks : walk setting [target] table path nodes state = .ok after → Walked setting roots asked state after)
    (succeeded : walkOrAll setting target table path nodes state = .ok after) :
    Walked setting roots asked state after := by
  rcases walkOrAll_cases succeeded with ⟨-, rfl⟩ | ⟨-, walked⟩
  · exact projectColumns_walked addressable built within.stands (List.mem_singleton_self target)
      fun a scalar => .attribute (Entity.mem_attributes_of_scalar scalar)
  · exact walks walked

mutual

theorem walk_walked (addressable : setting.IsAddressable roots) (nodes : List FilterNode)
    {way : List JoinEntry} {es : List Entity} {table : Nat} {above : String} {state after : State}
    (built : state.IsBuilt setting roots asked) (within : StandsWithin roots state way es table above)
    (isAsked : ∀ item ∈ FilterNode.itemsOfAll nodes, asked item)
    (succeeded : walk setting es table above nodes state = .ok after) : Walked setting roots asked state after := by
  match nodes with
  | [] =>
      cases succeeded
      exact .refl _
  | n :: rest =>
      obtain ⟨middle, first, succeeded⟩ := bind_eq_ok.mp succeeded
      have walked := walkNode_walked addressable n built within
        (fun item member => isAsked item (List.mem_append_left _ member)) first
      exact walked.trans (walk_walked addressable rest (walked.built addressable built)
        (within.walked addressable built walked) (fun item member => isAsked item (List.mem_append_right _ member))
        succeeded)

theorem walkNode_walked (addressable : setting.IsAddressable roots) (n : FilterNode)
    {way : List JoinEntry} {es : List Entity} {table : Nat} {above : String} {state after : State}
    (built : state.IsBuilt setting roots asked) (within : StandsWithin roots state way es table above)
    (isAsked : ∀ item ∈ n.items, asked item)
    (succeeded : walkNode setting es table above n state = .ok after) : Walked setting roots asked state after := by
  match n with
  | ⟨item, children⟩ =>
      have declares {e : Entity} {a : Attribute} (found : resolve? item es = some (e, a))
          (isAssociation : a.isAssociation = true) : declarer? es a.property = some (e, a) := by
        obtain ⟨-, held, -⟩ := resolve?_eq_some found
        have property : a.property = item.subject.property := by simpa using List.find?_some held
        rw [property]
        exact declarer?_of_resolve? (within.stands.leads.agreed addressable.agreed) found isAssociation
      cases walkNode_cases succeeded with
      | passed => exact .refl _
      | counted found counts leads joins =>
          have declared := declares found (Registry.isAssociation_of_targetOf leads)
          obtain ⟨walked, -, -, j, there⟩ := join_walked addressable built within declared leads joins
          exact walked.trans (.of_visit (.aggregate there.stands _) Scope.project_enclosing)
      | collection found plain collection =>
          have declared := declares found (Attribute.isAssociation_of_isCollection collection)
          exact walkCollection_walked addressable built within declared fun item member =>
            isAsked item (List.mem_cons_of_mem _ member)
      | column found =>
          obtain ⟨member, held, same⟩ := resolve?_eq_some found
          exact .of_visit (.item within.stands member (List.mem_of_find?_eq_some held)
            (isAsked item (List.mem_cons_self ..)) same) walkColumn_enclosing
      | @association e target a reached inside joined found plain single leads joins walked =>
          have declared := declares found (Registry.isAssociation_of_targetOf leads)
          obtain ⟨first, reachedBuilt, here, j, there⟩ := join_walked addressable built within declared leads joins
          have below := walkOrAll_of_walked addressable reachedBuilt there (walk_walked addressable children reachedBuilt
            there fun item member => isAsked item (List.mem_cons_of_mem _ member)) walked
          exact (first.trans below).trans (finishAssociation_walked addressable
            (below.built addressable reachedBuilt) (here.walked addressable reachedBuilt below) declared
            (there.walked addressable reachedBuilt below))

end

end Walk

end Compile

end ViewEngine
