import ViewEngine.Proofs.Compilation.Reached
import ViewEngine.Proofs.Isolation.Columns

/-!
Two walks side by side, over trees of which one has collections that the other lacks. The walks join the
same tables under the same numbers, since a collection is joined in a statement of its own.
-/

namespace ViewEngine

open Sql Compile

def JoinPlan.IsNumbered (plan : JoinPlan) : Prop :=
  ∀ j ∈ plan.entries, j.join.table.number = some j.table

namespace Compile

/-- States in the making of one statement each, with the same joins, conditions and orderings. -/
structure State.Alike (emptied : Prop) (s s' : State) : Prop where
  plan : s'.plan = s.plan
  next : s'.nextTable = s.nextTable
  numbered : s.plan.IsNumbered
  scope : s.scope.Alike emptied s'.scope

/-- What a walk comes to is alike to what it came to on the other side, where there were no other joins before. -/
def State.Continues (emptied : Prop) (before after : State) (other : Except SchemaError State) : Prop :=
  ∃ after', other = .ok after' ∧ after.Alike emptied after' ∧
    before.scope.statement.joins ⊆ after.scope.statement.joins

/-- Takes collections out of a list of nodes, with all that is asked of them, but for those that are counted. It
goes down along associations to one row, and says whether that empties a list that was not empty before. -/
inductive Pruned (registry : Registry) (emptied : Prop) : List Entity → List FilterNode → List FilterNode → Prop
  | nil {es : List Entity} : Pruned registry emptied es [] []
  | collection {es : List Entity} {item : FilterItem} {children nodes nodes' : List FilterNode} {e : Entity}
      {a : Attribute} (found : resolve? item es = some (e, a)) (plain : item.aggregate = none)
      (collection : a.isCollection = true) (rest : Pruned registry emptied es nodes nodes') :
      Pruned registry emptied es (⟨item, children⟩ :: nodes) nodes'
  | kept {es : List Entity} {nodes nodes' : List FilterNode} (node : FilterNode)
      (rest : Pruned registry emptied es nodes nodes') : Pruned registry emptied es (node :: nodes) (node :: nodes')
  | association {es : List Entity} {item : FilterItem} {children children' nodes nodes' : List FilterNode} {e target : Entity}
      {a : Attribute} (found : resolve? item es = some (e, a)) (single : a.isCollection = false)
      (leads : registry.targetOf a = .ok target) (below : Pruned registry emptied [target] children children')
      (filled : children' = [] → children = [] ∨ emptied) (rest : Pruned registry emptied es nodes nodes') :
      Pruned registry emptied es (⟨item, children⟩ :: nodes) (⟨item, children'⟩ :: nodes')

variable {registry : Registry} {setting : Setting} {emptied : Prop} {s s' before middle after after' : State}
  {other : Except SchemaError State} {e target : Entity} {a : Attribute} {es : List Entity} {table joined : Nat}
  {above path : String} {item : FilterItem} {aggregate : Aggregate} {node node' : FilterNode}
  {nodes nodes' children children' : List FilterNode}

theorem Pruned.refl (es : List Entity) (nodes : List FilterNode) : Pruned registry emptied es nodes nodes := by
  induction nodes with
  | nil => exact .nil
  | cons node rest ih => exact .kept node ih

theorem Pruned.eq_nil (pruned : Pruned registry emptied es nodes nodes') (none : nodes = []) : nodes' = [] := by
  cases pruned with
  | nil => rfl
  | collection => contradiction
  | kept => contradiction
  | association => contradiction

section Joins

theorem introduced_addJoin {statement : Statement} {join : Join} (number : join.table.number = some table) :
    table ∈ Join.introduced (statement.addJoin join).joins := by
  unfold Statement.addJoin
  split
  next present =>
    obtain ⟨there, member, same⟩ := List.any_eq_true.mp present
    simp only [Join.equal, Bool.and_eq_true, beq_iff_eq] at same
    exact Join.mem_introduced member (same.1.2 ▸ number)
  next => exact Join.mem_introduced (List.mem_append_right _ (List.mem_singleton_self join)) number

theorem State.Alike.addJoin (alike : s.Alike emptied s') (join : Join) :
    (s.addJoin join).Alike emptied (s'.addJoin join) :=
  ⟨alike.plan, alike.next, alike.numbered, alike.scope.addJoin join⟩

theorem join_isolated (alike : s.Alike emptied s') (joins : s.join setting path a e table = .ok (after, joined)) :
    joined ∈ Join.introduced after.scope.statement.joins ∧
      ∃ after', s'.join setting path a e table = .ok (after', joined) ∧ after.Alike emptied after' ∧
        s.scope.statement.joins ⊆ after.scope.statement.joins := by
  unfold State.join at joins ⊢
  rw [alike.plan, alike.next]
  split at joins
  next entry found =>
    cases joins
    have number := alike.numbered entry (List.mem_of_find?_eq_some found)
    exact ⟨introduced_addJoin number, _, rfl, alike.addJoin entry.join, subset_addJoin _ _⟩
  next absent =>
    obtain ⟨target, found, joins⟩ := bind_eq_ok.mp joins
    cases joins
    let join : Join :=
      ⟨.leftOuter, ⟨joinedTable a target, some s.nextTable⟩, joinCondition setting a target table s.nextTable⟩
    let entry : JoinEntry := ⟨path, a, e, target, table, s.nextTable, join⟩
    refine ⟨introduced_addJoin rfl, { s'.addJoin join with plan := s.plan.add entry, nextTable := s.nextTable + 1 },
      by rw [found]; rfl, ⟨rfl, rfl, fun j member => ?_, (alike.addJoin join).scope⟩, subset_addJoin _ _⟩
    rcases List.mem_append.mp member with old | new
    · exact alike.numbered j old
    · rw [List.mem_singleton.mp new]

end Joins

section Steps

theorem State.Continues.of_joins (alike : after.Alike emptied after')
    (same : after.scope.statement.joins = before.scope.statement.joins) : before.Continues emptied after (.ok after') :=
  ⟨after', rfl, alike, fun _ member => same ▸ member⟩

theorem State.Alike.mapScope (alike : s.Alike emptied s') {change change' : Scope → Scope}
    (scope : (change s.scope).Alike emptied (change' s'.scope)) :
    (s.mapScope change).Alike emptied (s'.mapScope change') :=
  ⟨alike.plan, alike.next, alike.numbered, scope⟩

theorem walkAggregate_isolated (alike : s.Alike emptied s')
    (succeeded : walkAggregate setting item aggregate a e table path s = .ok after) :
    s.Continues emptied after (walkAggregate setting item aggregate a e table path s') := by
  unfold walkAggregate at succeeded ⊢
  obtain ⟨target, found, succeeded⟩ := bind_eq_ok.mp succeeded
  obtain ⟨⟨reached, joined⟩, joins, succeeded⟩ := bind_eq_ok.mp succeeded
  cases succeeded
  obtain ⟨-, reached', joins', alike, more⟩ := join_isolated alike joins
  refine ⟨_, bind_eq_ok.mpr ⟨target, found, bind_eq_ok.mpr ⟨_, joins', rfl⟩⟩,
    alike.mapScope (alike.scope.project _ _ _ _), ?_⟩
  rw [State.mapScope, Scope.project_joins]
  exact more

theorem walkColumn_isolated (alike : s.Alike emptied s') :
    s.Continues emptied (walkColumn item a table path s) (.ok (walkColumn item a table path s')) := by
  refine .of_joins ?_ walkColumn_joins
  unfold walkColumn
  cases a.column with
  | none => exact alike
  | some column =>
      refine alike.mapScope ?_
      have tested (p : Predicate) := alike.scope.filter (p.expr a.columnType (.columnOf table column))
      cases item.predicate with
      | none =>
          cases item.sortAscending with
          | none => exact alike.scope.project _ _ _ _
          | some ascending => exact (alike.scope.project _ _ _ _).addOrdering _ _
      | some p =>
          cases item.sortAscending with
          | none => exact (tested p).project _ _ _ _
          | some ascending => exact ((tested p).project _ _ _ _).addOrdering _ _

theorem walkCollection_isolated (alike : s.Alike emptied s') :
    s.Continues emptied (walkCollection children a e table above path s)
      (.ok (walkCollection children a e table above path s')) :=
  .of_joins ⟨alike.plan, alike.next, alike.numbered, alike.scope.projectColumns _ table above⟩
    (congrArg (·.joins) Scope.projectJoinSide_base)

theorem walkCollection_left (alike : s.Alike emptied s') (known : table ∈ Join.introduced s.scope.statement.joins) :
    s.Continues emptied (walkCollection children a e table above path s) (.ok s') :=
  .of_joins ⟨alike.plan, alike.next, alike.numbered, alike.scope.projectColumns_left known⟩
    (congrArg (·.joins) Scope.projectJoinSide_base)

theorem finishAssociation_isolated (alike : s.Alike emptied s') :
    s.Continues emptied (finishAssociation a e target table joined above path s)
      (.ok (finishAssociation a e target table joined above path s')) := by
  refine .of_joins (alike.mapScope ?_) (congrArg (·.joins) finishAssociation_base)
  exact ((alike.scope.projectIdentity target joined path).projectColumns _ table above).projectColumns _ joined path

end Steps

section Walks

def Isolated (setting : Setting) (emptied : Prop) (es : List Entity) (nodes nodes' : List FilterNode) : Prop :=
  ∀ ⦃table above s s' after⦄, State.Alike emptied s s' → table ∈ Join.introduced s.scope.statement.joins →
    walk setting es table above nodes s = .ok after → s.Continues emptied after (walk setting es table above nodes' s')

def IsolatedNode (setting : Setting) (emptied : Prop) (es : List Entity) (node node' : FilterNode) : Prop :=
  ∀ ⦃table above s s' after⦄, State.Alike emptied s s' → table ∈ Join.introduced s.scope.statement.joins →
    walkNode setting es table above node s = .ok after →
      s.Continues emptied after (walkNode setting es table above node' s')

theorem State.Continues.trans (first : before.Continues emptied middle other) (next : State → Except SchemaError State)
    (second : ∀ middle', middle.Alike emptied middle' → before.scope.statement.joins ⊆ middle.scope.statement.joins →
      middle.Continues emptied after (next middle')) : before.Continues emptied after (other >>= next) := by
  obtain ⟨middle', rfl, alike, more⟩ := first
  obtain ⟨after', succeeded, alike, further⟩ := second middle' alike more
  exact ⟨after', succeeded, alike, List.Subset.trans more further⟩

theorem introduced_mono {joins further : List Join} (more : joins ⊆ further) (known : table ∈ Join.introduced joins) :
    table ∈ Join.introduced further :=
  List.cons_subset_cons 0 (List.filterMap_subset _ more) known

theorem Isolated.nil : Isolated setting emptied es [] [] := by
  intro table above s s' after alike known succeeded
  cases succeeded
  exact ⟨s', rfl, alike, List.Subset.refl _⟩

theorem Isolated.cons (first : IsolatedNode setting emptied es node node')
    (rest : Isolated setting emptied es nodes nodes') : Isolated setting emptied es (node :: nodes) (node' :: nodes') := by
  intro table above s s' after alike known succeeded
  obtain ⟨middle, here, succeeded⟩ := bind_eq_ok.mp succeeded
  exact (first alike known here).trans _ fun middle' alike more => rest alike (introduced_mono more known) succeeded

/-- A node that is left out goes on alike when it is a collection. -/
theorem Isolated.collection (found : resolve? item es = some (e, a)) (plain : item.aggregate = none)
    (collection : a.isCollection = true) (rest : Isolated setting emptied es nodes nodes') :
    Isolated setting emptied es (⟨item, children⟩ :: nodes) nodes' := by
  intro table above s s' after alike known succeeded
  obtain ⟨middle, here, succeeded⟩ := bind_eq_ok.mp succeeded
  unfold walkNode at here
  simp only [found, plain, collection, if_true] at here
  cases here
  exact (walkCollection_left alike known).trans (walk setting es table above nodes') fun s' alike more =>
    rest alike (introduced_mono more known) succeeded

theorem below_isolated (isolated : Isolated setting emptied [target] children children')
    (none : children = [] → children' = []) (filled : children' = [] → children = [] ∨ emptied)
    (alike : s.Alike emptied s') (known : table ∈ Join.introduced s.scope.statement.joins)
    (succeeded : walkOrAll setting target table path children s = .ok after) :
    s.Continues emptied after (walkOrAll setting target table path children' s') := by
  unfold walkOrAll at succeeded ⊢
  cases children with
  | nil =>
      cases succeeded
      rw [none rfl]
      exact .of_joins (alike.mapScope (alike.scope.projectColumns _ table path))
        (congrArg (·.joins) Scope.projectColumns_base)
  | cons first rest =>
      obtain ⟨after', walked, further, more⟩ := isolated alike known succeeded
      cases children' with
      | nil =>
          cases walked
          rcases filled rfl with absurd | emptied
          · contradiction
          · exact ⟨_, rfl, ⟨further.plan, further.next, further.numbered,
              further.scope.projectColumns_right (introduced_mono more known) emptied⟩, more⟩
      | cons => exact ⟨after', walked, further, more⟩

theorem IsolatedNode.of_below
    (below : ∀ e a target, resolve? item es = some (e, a) → a.isCollection = false →
      setting.registry.targetOf a = .ok target → Isolated setting emptied [target] children children')
    (same : ∀ e a, resolve? item es = some (e, a) → a.isCollection = true → children' = children)
    (none : children = [] → children' = []) (filled : children' = [] → children = [] ∨ emptied) :
    IsolatedNode setting emptied es ⟨item, children⟩ ⟨item, children'⟩ := by
  intro table above s s' after alike known succeeded
  cases found : resolve? item es with
  | none =>
      rw [walkNode, found] at succeeded ⊢
      cases succeeded
      exact .of_joins alike rfl
  | some pair =>
      obtain ⟨e, a⟩ := pair
      cases counted : item.aggregate with
      | some aggregate =>
          simp only [walkNode, found, counted] at succeeded ⊢
          exact walkAggregate_isolated alike succeeded
      | none =>
          cases collection : a.isCollection with
          | true =>
              simp only [walkNode, found, counted, collection, if_true] at succeeded ⊢
              cases succeeded
              rw [same e a found collection]
              exact walkCollection_isolated alike
          | false =>
              cases isAssociation : a.isAssociation with
              | false =>
                  simp only [walkNode, found, counted, collection, isAssociation, Bool.false_eq_true, if_false]
                    at succeeded ⊢
                  cases succeeded
                  exact walkColumn_isolated alike
              | true =>
                  rw [walkNode_association found counted collection isAssociation] at succeeded ⊢
                  obtain ⟨target, leads, succeeded⟩ := bind_eq_ok.mp succeeded
                  obtain ⟨⟨reached, joined⟩, joins, succeeded⟩ := bind_eq_ok.mp succeeded
                  obtain ⟨inside, walked, succeeded⟩ := bind_eq_ok.mp succeeded
                  cases succeeded
                  obtain ⟨there, reached', joins', alike, more⟩ := join_isolated alike joins
                  have continues : reached.Continues emptied inside
                      (walkOrAll setting target joined (Path.child above a.property) children' reached') :=
                    below_isolated (below e a target found collection leads) none filled alike there walked
                  obtain ⟨after', result, alike, further⟩ := continues.trans _ fun inside' alike _ =>
                    finishAssociation_isolated alike
                  exact ⟨after', bind_eq_ok.mpr ⟨target, leads, bind_eq_ok.mpr ⟨_, joins', result⟩⟩, alike,
                    List.Subset.trans more further⟩

mutual

theorem Isolated.refl (es : List Entity) (nodes : List FilterNode) : Isolated setting emptied es nodes nodes := by
  match nodes with
  | [] => exact .nil
  | node :: rest => exact .cons (.refl es node) (.refl es rest)

theorem IsolatedNode.refl (es : List Entity) (node : FilterNode) : IsolatedNode setting emptied es node node := by
  match node with
  | ⟨item, children⟩ =>
      exact .of_below (fun _ _ target _ _ _ => .refl [target] children) (fun _ _ _ _ => rfl) id .inl

end

theorem Pruned.isolated (pruned : Pruned setting.registry emptied es nodes nodes') :
    Isolated setting emptied es nodes nodes' := by
  induction pruned with
  | nil => exact .nil
  | collection found plain collection _ rest => exact .collection found plain collection rest
  | kept node _ rest => exact .cons (.refl _ node) rest
  | association found single leads pruned filled _ inside rest =>
      refine .cons (.of_below (fun e' a' target' found' _ leads' => ?_) (fun e' a' found' collection => ?_)
        pruned.eq_nil filled) rest
      · rw [found] at found'
        cases found'
        rw [leads] at leads'
        cases leads'
        exact inside
      · rw [found] at found'
        cases found'
        rw [single] at collection
        contradiction

end Walks

end Compile

end ViewEngine
