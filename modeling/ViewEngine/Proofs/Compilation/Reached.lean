import ViewEngine.Proofs.Compilation.Visits

/-!
What a walk over a tree reaches. The nodes that apply to the rows of a table, and those below associations
to one row, add to the statement at hand; collections are put down with the nodes below them.
-/

namespace ViewEngine

open Sql Compile

/-- The number of the table that an association is joined with. -/
def JoinPlan.tableAt (plan : JoinPlan) (path : String) (a : Attribute) : Nat :=
  ((plan.find? path a.id).map (·.table)).getD 0

namespace Compile

structure Leaf where
  predicate : Predicate
  type : ColumnType
  table : Nat
  column : String

def Leaf.expr (l : Leaf) : Expr :=
  l.predicate.expr l.type (.columnOf l.table l.column)

/-- A collection that a statement of its own is made for, with all the nodes below it. -/
structure Collected where
  path : String
  subject : Attribute
  nodes : List FilterNode

namespace Collected

def ofDeferred (c : DeferredCollection) : Collected :=
  ⟨c.path, c.subject, c.nodes⟩

/-- There is one collection at a path, with the nodes of all that are put down there. -/
def put : List Collected → Collected → List Collected
  | [], c => [c]
  | other :: rest, c =>
    if other.path = c.path then { other with nodes := other.nodes ++ c.nodes } :: rest else other :: put rest c

end Collected

/-- A node that applies to a row, and the attribute that it asks for. -/
structure Reached where
  item : FilterItem
  children : List FilterNode
  subject : Attribute
  table : Nat
  path : String

namespace Reached

def isColumn (x : Reached) : Bool :=
  x.item.aggregate.isNone && !x.subject.isAssociation

def isCollection (x : Reached) : Bool :=
  x.item.aggregate.isNone && x.subject.isCollection

/-- What is joined for a node: an association to one row, or one whose rows are counted. -/
def join? (plan : JoinPlan) (x : Reached) : Option Join :=
  if x.isColumn || x.isCollection then none else (plan.find? x.path x.subject.id).map (·.join)

def leaf? (x : Reached) : Option Leaf :=
  if x.isColumn then
    x.item.predicate.bind fun p => x.subject.column.map fun column => ⟨p, x.subject.columnType, x.table, column⟩
  else none

def ordering? (x : Reached) : Option Sql.Ordering :=
  if x.isColumn then
    x.item.sortAscending.bind fun ascending => x.subject.column.map fun column =>
      ⟨.columnOf x.table column, if ascending then .ascending else .descending⟩
  else none

def collected? (x : Reached) : Option Collected :=
  if x.isCollection then some ⟨x.path, x.subject, x.children⟩ else none

def onto (plan : JoinPlan) (s : Statement) (x : Reached) : Statement :=
  let joined := (x.join? plan).toList.foldl Statement.addJoin s
  let tested := x.leaf?.toList.foldl (fun s l => s.filter l.expr) joined
  x.ordering?.toList.foldl (fun s o => s.addOrdering o.expr o.direction) tested

end Reached

mutual

/-- The nodes that a walk reaches. It goes on below associations, but for those that are collections or counted. -/
def reachedOfAll (registry : Registry) (plan : JoinPlan) (entities : List Entity) (table : Nat) (above : String) :
    List FilterNode → List Reached
  | [] => []
  | node :: rest =>
    reachedOf registry plan entities table above node ++ reachedOfAll registry plan entities table above rest

def reachedOf (registry : Registry) (plan : JoinPlan) (entities : List Entity) (table : Nat) (above : String) :
    FilterNode → List Reached
  | ⟨item, children⟩ =>
    match resolve? item entities with
    | none => []
    | some (_, a) =>
      let path := Path.child above a.property
      let below :=
        if item.aggregate.isSome || a.isCollection then []
        else
          match registry.targetOf a with
          | .ok target => reachedOfAll registry plan [target] (plan.tableAt path a) path children
          | .error _ => []
      ⟨item, children, a, table, path⟩ :: below

end

def Collected.reached (registry : Registry) (plan : JoinPlan) (c : Collected) : List Reached :=
  match registry.targetOf c.subject with
  | .ok target => reachedOfAll registry plan [target] (plan.tableAt c.path c.subject) c.path c.nodes
  | .error _ => []

variable {setting : Setting} {plan further : JoinPlan} {state middle after : State} {reached others : List Reached}
  {s : Scope} {e target : Entity} {a : Attribute} {table joined : Nat} {above path : String} {item : FilterItem}
  {children : List FilterNode} {columns : List String} {attributes : List Attribute}

section Projections

theorem finishAssociation_base :
    (finishAssociation a e target table joined above path state).scope.base = state.scope.base := by
  simp only [finishAssociation, State.mapScope, Scope.projectJoinSide_base, Scope.projectIdentity_base]

end Projections

theorem find?_of_prefix {id : AttributeId} {entry : JoinEntry} (found : plan.find? path id = some entry)
    (grown : plan.entries <+: further.entries) : further.find? path id = some entry := by
  obtain ⟨more, same⟩ := grown
  rw [JoinPlan.find?, ← same, List.find?_append, ← JoinPlan.find?, found]
  rfl

structure Gathers (plan : JoinPlan) (state after : State) (reached : List Reached) : Prop where
  base : after.scope.base = reached.foldl (Reached.onto plan) state.scope.base
  deferred : after.deferred.map Collected.ofDeferred =
    (reached.filterMap (·.collected?)).foldl Collected.put (state.deferred.map Collected.ofDeferred)

namespace Gathers

theorem refl (plan : JoinPlan) (state : State) : Gathers plan state state [] :=
  ⟨rfl, rfl⟩

theorem trans (first : Gathers plan state middle reached) (second : Gathers plan middle after others) :
    Gathers plan state after (reached ++ others) := by
  constructor
  · rw [List.foldl_append, ← first.base]
    exact second.base
  · rw [List.filterMap_append, List.foldl_append, ← first.deferred]
    exact second.deferred

theorem projected (gathers : Gathers plan state middle reached)
    (base : after.scope.base = middle.scope.base) (deferred : after.deferred = middle.deferred) :
    Gathers plan state after reached :=
  ⟨base.trans gathers.base, (congrArg _ deferred).trans gathers.deferred⟩

end Gathers

theorem join_exists (found : setting.registry.targetOf a = .ok target) (state : State) (path : String) (e : Entity)
    (table : Nat) : ∃ after joined, state.join setting path a e table = .ok (after, joined) := by
  unfold State.join
  split
  · exact ⟨_, _, rfl⟩
  · rw [found]
    exact ⟨_, _, rfl⟩

/-- A join is that of the plan, as it is then and stays. -/
theorem join_planned (joins : state.join setting path a e table = .ok (after, joined)) :
    state.plan.entries <+: after.plan.entries ∧ ∃ entry, after.plan.find? path a.id = some entry ∧
      entry.table = joined ∧
      after = { state.addJoin entry.join with plan := after.plan, nextTable := after.nextTable } := by
  unfold State.join at joins
  split at joins
  next entry found =>
    cases joins
    exact ⟨List.prefix_refl _, entry, found, rfl, rfl⟩
  next absent =>
    obtain ⟨target, -, joins⟩ := bind_eq_ok.mp joins
    cases joins
    let join : Join :=
      ⟨.leftOuter, ⟨joinedTable a target, some state.nextTable⟩, joinCondition setting a target table state.nextTable⟩
    refine ⟨List.prefix_append _ _, ⟨path, a, e, target, table, state.nextTable, join⟩, ?_, rfl, rfl⟩
    have missing : state.plan.entries.find? (fun e => e.path == path && e.subject.id == a.id) = none := absent
    simp [join, JoinPlan.find?, JoinPlan.add, List.find?_append, missing]

theorem join_deferred (joins : state.join setting path a e table = .ok (after, joined)) :
    after.deferred = state.deferred := by
  obtain ⟨-, entry, -, -, same⟩ := join_planned joins
  rw [same]
  rfl

theorem join_gathers (x : Reached) (joins : state.join setting x.path x.subject e table = .ok (after, joined))
    (grown : after.plan.entries <+: plan.entries) (column : x.isColumn = false) (collection : x.isCollection = false) :
    Gathers plan state after [x] ∧ plan.tableAt x.path x.subject = joined := by
  obtain ⟨-, entry, found, number, same⟩ := join_planned joins
  have planned := find?_of_prefix found grown
  refine ⟨⟨?_, ?_⟩, by rw [JoinPlan.tableAt, planned, ← number]; rfl⟩
  · rw [same]
    simp [Reached.onto, Reached.join?, Reached.leaf?, Reached.ordering?, column, collection, planned, State.addJoin,
      Scope.addJoin_base]
  · rw [same]
    simp [Reached.collected?, collection, State.addJoin]

theorem defer_collected (c : DeferredCollection) (deferred : List DeferredCollection) :
    (defer c deferred).map Collected.ofDeferred =
      Collected.put (deferred.map Collected.ofDeferred) (Collected.ofDeferred c) := by
  induction deferred with
  | nil => rfl
  | cons other rest ih =>
      by_cases same : other.path = c.path
      · simp [defer, Collected.put, same, Collected.ofDeferred]
      · have apart : ¬(Collected.ofDeferred other).path = (Collected.ofDeferred c).path := same
        rw [defer, if_neg same, List.map_cons, List.map_cons, Collected.put, if_neg apart, ih]

theorem walkColumn_gathers (column : Reached.isColumn ⟨item, children, a, table, path⟩ = true)
    (collection : Reached.isCollection ⟨item, children, a, table, path⟩ = false) :
    Gathers plan state (walkColumn item a table path state) [⟨item, children, a, table, path⟩] := by
  constructor
  · rw [List.foldl_cons, List.foldl_nil, Reached.onto, Reached.join?, Reached.leaf?, Reached.ordering?, column]
    unfold walkColumn
    cases a.column with
    | none => cases item.predicate <;> cases item.sortAscending <;> rfl
    | some name =>
        cases item.predicate <;> cases item.sortAscending <;>
          simp [State.mapScope, Scope.project_base, Scope.filter_base, Scope.addOrdering_base, Leaf.expr]
  · rw [walkColumn_plan.2]
    simp [Reached.collected?, collection]

theorem walkCollection_gathers (collection : Reached.isCollection ⟨item, children, a, table, path⟩ = true) :
    Gathers plan state (walkCollection children a e table above path state) [⟨item, children, a, table, path⟩] := by
  have column : Reached.isColumn ⟨item, children, a, table, path⟩ = false := by
    simp only [Reached.isCollection, Reached.isColumn, Bool.and_eq_true] at collection ⊢
    rw [Attribute.isAssociation_of_isCollection collection.2, Bool.not_true, Bool.and_false]
  constructor
  · simp [walkCollection, State.mapScope, Scope.projectJoinSide_base, Reached.onto, Reached.join?, Reached.leaf?,
      Reached.ordering?, collection, column]
  · refine (defer_collected _ _).trans ?_
    simp [Reached.collected?, collection, State.mapScope, Collected.ofDeferred]

theorem targetOf_column {registry : Registry} (isColumn : a.isAssociation = false) :
    registry.targetOf a = .error (.notAnAssociation a.id) := by
  unfold Registry.targetOf
  cases declared : a.association with
  | none => rfl
  | some association => simp [Attribute.isAssociation, declared] at isColumn

mutual

theorem walk_gathers (nodes : List FilterNode) {entities : List Entity} {table : Nat} {above : String}
    {state after : State} (succeeded : walk setting entities table above nodes state = .ok after) :
    state.plan.entries <+: after.plan.entries ∧ ∀ plan, after.plan.entries <+: plan.entries →
      Gathers plan state after (reachedOfAll setting.registry plan entities table above nodes) := by
  -- Induction on the tree. The plan grows on; tables keep their numbers in any plan that it has grown to.
  match nodes with
  | [] =>
      cases succeeded
      exact ⟨List.prefix_refl _, fun plan _ => .refl plan state⟩
  | node :: rest =>
      obtain ⟨middle, first, succeeded⟩ := bind_eq_ok.mp succeeded
      obtain ⟨grown, gathers⟩ := walkNode_gathers node first
      obtain ⟨further, others⟩ := walk_gathers rest succeeded
      exact ⟨grown.trans further, fun plan extends_ =>
        (gathers plan (further.trans extends_)).trans (others plan extends_)⟩

theorem walkNode_gathers (node : FilterNode) {entities : List Entity} {table : Nat} {above : String}
    {state after : State} (succeeded : walkNode setting entities table above node state = .ok after) :
    state.plan.entries <+: after.plan.entries ∧ ∀ plan, after.plan.entries <+: plan.entries →
      Gathers plan state after (reachedOf setting.registry plan entities table above node) := by
  match node with
  | ⟨item, children⟩ =>
      cases walkNode_cases succeeded with
      | passed found =>
          simp only [reachedOf, found]
          exact ⟨List.prefix_refl _, fun plan _ => .refl plan state⟩
      | @counted e target a aggregate reached joined found counts leads joins =>
          refine ⟨(join_planned joins).1, fun plan grown => ?_⟩
          have gathers := (join_gathers ⟨item, children, a, table, Path.child above a.property⟩ joins grown
            (by simp [Reached.isColumn, counts]) (by simp [Reached.isCollection, counts])).1
          simp only [reachedOf, found, counts, Option.isSome_some, Bool.true_or, if_true]
          exact gathers.projected Scope.project_base rfl
      | collection found plain collection =>
          refine ⟨List.prefix_refl _, fun plan _ => ?_⟩
          simp only [reachedOf, found, collection, Bool.or_true, if_true]
          exact walkCollection_gathers (by simp [Reached.isCollection, plain, collection])
      | @column e a found plain isColumn =>
          refine ⟨walkColumn_plan.1.symm ▸ List.prefix_refl _, fun plan _ => ?_⟩
          have single := Attribute.isCollection_of_column isColumn
          simp only [reachedOf, found, plain, single, targetOf_column isColumn, Option.isSome_none, Bool.or_self, ite_self]
          exact walkColumn_gathers (by simp [Reached.isColumn, plain, isColumn])
            (by simp [Reached.isCollection, single])
      | @association e target a reached inside joined found plain single leads joins walked =>
          obtain ⟨furthered, gathers⟩ : reached.plan.entries <+: inside.plan.entries ∧
              ∀ plan, inside.plan.entries <+: plan.entries → Gathers plan reached inside
                (reachedOfAll setting.registry plan [target] joined (Path.child above a.property) children) := by
            rcases walkOrAll_cases walked with ⟨rfl, rfl⟩ | ⟨-, walked⟩
            · exact ⟨List.prefix_refl _, fun plan _ =>
                (Gathers.refl plan reached).projected Scope.projectColumns_base rfl⟩
            · exact walk_gathers children walked
          refine ⟨(join_planned joins).1.trans furthered, fun plan grown => ?_⟩
          have isAssociation := Registry.isAssociation_of_targetOf leads
          obtain ⟨here, number⟩ := join_gathers ⟨item, children, a, table, Path.child above a.property⟩ joins
            (furthered.trans grown) (by simp [Reached.isColumn, isAssociation]) (by simp [Reached.isCollection, single])
          simp only [reachedOf, found, plain, single, leads, number, Option.isSome_none, Bool.or_self]
          exact (here.trans (gathers plan grown)).projected finishAssociation_base rfl

end

end Compile

end ViewEngine
