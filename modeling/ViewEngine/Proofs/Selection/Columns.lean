import ViewEngine.Proofs.Requests.Parts
import ViewEngine.Proofs.Selection.Nodes

/-!
What a statement selects: of all the columns that its nodes have to offer, in the order in which they are visited, the
first one under each label.
-/

namespace ViewEngine

open Sql Compile

def Attribute.columnAt? (table : Nat) (path : String) (a : Attribute) : Option Projection :=
  a.column.map fun column => ⟨.columnOf table column, ⟨Path.child path a.property, some a, .value⟩⟩

namespace Entity

def identityColumns (e : Entity) (table : Nat) (path : String) : List Projection :=
  e.storageKeys.filterMap (·.columnAt? table path)

def sideColumns (e : Entity) (columns : List String) (table : Nat) (path : String) : List Projection :=
  ((columns.filterMap e.column?).filter (!·.primaryKey)).filterMap (·.columnAt? table path)

def scalarColumns (e : Entity) (table : Nat) (path : String) : List Projection :=
  e.scalars.filterMap (·.columnAt? table path)

end Entity

namespace Compile

def JoinedCollection.identityColumns (c : JoinedCollection) : List Projection :=
  c.entity.identityColumns c.table c.path

def Root.keyColumn (r : Root) : Projection :=
  ⟨r.key, ⟨r.keyAlias, none, .rootKey⟩⟩

/-- Adds columns one after the other, each unless there is one with its label. -/
def putColumns (offered : List Projection) (ps : List Projection) : List Projection :=
  offered.foldl (fun ps p => putColumn p ps) ps

/-- The name under which the value of a node is selected. -/
def Reached.alias (x : Reached) : String :=
  x.item.outputName.getD x.path

/-- The column that a node asks for. -/
inductive Reached.Asks (x : Reached) : Projection → Prop
  | column {column : String} (isColumn : x.isColumn = true) (stored : x.subject.column = some column) :
      Asks x ⟨.columnOf x.table column, ⟨x.alias, some x.subject, .value⟩⟩
  | count (counted : x.item.aggregate.isSome = true) (expr : Expr) : Asks x ⟨expr, ⟨x.alias, none, .aggregate⟩⟩

/-- What the rows below an association are joined for. -/
def Reached.isJoined (x : Reached) : Bool :=
  x.item.aggregate.isSome || (x.subject.isAssociation && !x.subject.isCollection)

mutual

/-- The columns that the nodes on the rows of a table offer, in the order in which they are visited. -/
def offeredOfAll (registry : Registry) (plan : JoinPlan) (entities : List Entity) (table : Nat) (above : String) :
    List FilterNode → List Projection
  | [] => []
  | node :: rest =>
    offeredOf registry plan entities table above node ++ offeredOfAll registry plan entities table above rest

def offeredOf (registry : Registry) (plan : JoinPlan) (entities : List Entity) (table : Nat) (above : String) :
    FilterNode → List Projection
  | ⟨item, children⟩ =>
    match resolve? item entities with
    | none => []
    | some (e, a) =>
      let path := Path.child above a.property
      let joined := plan.tableAt path a
      let source := e.sideColumns (a.joinColumns.map (·.source)) table above
      match item.aggregate, registry.targetOf a with
      | some _, .error _ => []
      | some aggregate, .ok target =>
        let key := ((target.identityKeys.head?).bind (·.column)).getD ""
        [⟨.function aggregate.functionName [.wholeRow joined key], ⟨item.outputName.getD path, none, .aggregate⟩⟩]
      | none, .error _ =>
        if a.isCollection then source
        else if a.isAssociation then []
        else
          (a.column.map fun column =>
            ⟨.columnOf table column, ⟨item.outputName.getD path, some a, .value⟩⟩).toList
      | none, .ok target =>
        if a.isCollection then source
        else
          let inside :=
            if children.isEmpty then target.scalarColumns joined path
            else offeredOfAll registry plan [target] joined path children
          inside ++ target.identityColumns joined path ++ source ++
            target.sideColumns (a.joinColumns.map (·.target)) joined path

end

/-- What the nodes below an association or a collection offer; where there are none, all columns are offered. -/
def offeredOrAll (registry : Registry) (plan : JoinPlan) (target : Entity) (table : Nat) (path : String)
    (nodes : List FilterNode) : List Projection :=
  if nodes.isEmpty then target.scalarColumns table path else offeredOfAll registry plan [target] table path nodes

section Putting

variable {ps offered others : List Projection} {p q : Projection}

theorem putColumns_append : putColumns (offered ++ others) ps = putColumns others (putColumns offered ps) :=
  List.foldl_append ..

theorem putColumns_grow (offered ps : List Projection) : ps <+: putColumns offered ps := by
  induction offered generalizing ps with
  | nil => exact List.prefix_refl _
  | cons p rest ih => exact (putColumn_grows p ps).trans (ih _)

/-- Nothing is selected that is not offered. -/
theorem mem_putColumns (member : q ∈ putColumns offered ps) : q ∈ ps ∨ q ∈ offered := by
  induction offered generalizing ps with
  | nil => exact .inl member
  | cons p rest ih =>
      rcases ih member with early | later
      · rcases mem_putColumn early with old | rfl
        · exact .inl old
        · exact .inr (List.mem_cons_self ..)
      · exact .inr (List.mem_cons_of_mem _ later)

theorem exists_putColumns (ps : List Projection) (member : p ∈ offered) :
    ∃ q ∈ putColumns offered ps, q.binding.label = p.binding.label := by
  induction offered generalizing ps with
  | nil => contradiction
  | cons first rest ih =>
      rcases List.mem_cons.mp member with rfl | later
      · obtain ⟨q, inside, same⟩ := exists_putColumn p ps
        exact ⟨q, (putColumns_grow rest _).subset inside, same⟩
      · exact ih _ later

theorem nodup_putColumns (distinct : (ps.map (·.binding.label)).Nodup) (offered : List Projection) :
    ((putColumns offered ps).map (·.binding.label)).Nodup := by
  induction offered generalizing ps with
  | nil => exact distinct
  | cons p rest ih => exact ih (nodup_putColumn distinct p)

/-- What is offered is selected where nothing else has its label. -/
theorem mem_putColumns_of_apart (member : p ∈ offered) (taken : ∀ q ∈ ps, q.binding.label ≠ p.binding.label)
    (alone : ∀ q ∈ offered, q.binding.label = p.binding.label → q = p) : p ∈ putColumns offered ps := by
  obtain ⟨q, inside, same⟩ := exists_putColumns ps member
  rcases mem_putColumns inside with old | new
  · exact absurd same (taken q old)
  · exact alone q new same ▸ inside

end Putting

section Scope

variable {s : Scope} {e : Entity} {a : Attribute} {table : Nat} {path : String} {attributes : List Attribute}

theorem projectColumns_projections (inStep : s.IsInStep) : (s.projectColumns attributes table path).projections =
    putColumns (attributes.filterMap (·.columnAt? table path)) s.projections := by
  unfold Scope.projectColumns
  induction attributes generalizing s with
  | nil => rfl
  | cons a rest ih =>
      rw [List.foldl_cons, ih (inStep.projectColumn ..)]
      unfold Scope.projectColumn
      cases stored : a.column with
      | none => simp [Attribute.columnAt?, stored]
      | some column =>
          dsimp only
          rw [inStep.projections_project]
          simp [Attribute.columnAt?, stored, putColumns]

theorem projectIdentity_projections (inStep : s.IsInStep) :
    (s.projectIdentity e table path).projections = putColumns (e.identityColumns table path) s.projections := by
  rw [Scope.projectIdentity_eq, projectColumns_projections inStep, Entity.identityColumns]

theorem projectJoinSide_projections (inStep : s.IsInStep) {columns : List String} :
    (s.projectJoinSide e columns table path).projections =
      putColumns (e.sideColumns columns table path) s.projections :=
  projectColumns_projections inStep

theorem identities_projections (inStep : s.IsInStep) (outers : List JoinedCollection) :
    (outers.foldl (fun s outer => s.projectIdentity outer.entity outer.table outer.path) s).IsInStep ∧
      (outers.foldl (fun s outer => s.projectIdentity outer.entity outer.table outer.path) s).projections =
        putColumns (outers.flatMap (·.identityColumns)) s.projections := by
  induction outers generalizing s with
  | nil => exact ⟨inStep, rfl⟩
  | cons outer rest ih =>
      obtain ⟨last, same⟩ := ih (inStep.projectIdentity outer.entity outer.table outer.path)
      refine ⟨last, ?_⟩
      rw [List.foldl_cons, same, projectIdentity_projections inStep, List.flatMap_cons, putColumns_append]
      rfl

theorem start_projections (r : Root) (enclosing : List JoinedCollection) :
    (r.start enclosing).projections = [r.keyColumn] :=
  rfl

end Scope

section Walk

variable {setting : Setting} {state after : State} {e target : Entity} {a : Attribute} {item : FilterItem}
  {table joined : Nat} {above path : String}

theorem walkColumn_putColumns (inStep : state.scope.IsInStep) : (walkColumn item a table path state).scope.projections =
    putColumns (a.column.map fun column =>
      (⟨.columnOf table column, ⟨item.outputName.getD path, some a, .value⟩⟩ : Projection)).toList
        state.scope.projections := by
  rw [walkColumn_projections inStep]
  cases a.column <;> rfl

theorem finishAssociation_projections (inStep : state.scope.IsInStep) :
    (finishAssociation a e target table joined above path state).scope.projections =
      putColumns (target.identityColumns joined path ++ e.sideColumns (a.joinColumns.map (·.source)) table above ++
        target.sideColumns (a.joinColumns.map (·.target)) joined path) state.scope.projections := by
  have identity := inStep.projectIdentity target joined path
  have source := identity.projectJoinSide e (a.joinColumns.map (·.source)) table above
  rw [putColumns_append, putColumns_append, ← projectIdentity_projections inStep,
    ← projectJoinSide_projections identity, ← projectJoinSide_projections source]
  rfl

/-- The rows that nodes join are known, and have an entry in the plan. -/
def ArePlanned (registry : Registry) (plan : JoinPlan) (reached : List Reached) : Prop :=
  ∀ x ∈ reached, x.isJoined = true →
    ∃ target, registry.targetOf x.subject = .ok target ∧ (plan.find? x.path x.subject.id).isSome = true

structure State.Offers (registry : Registry) (plan : JoinPlan) (state after : State) (offered : List Projection)
    (reached : List Reached) : Prop where
  columns : after.scope.projections = putColumns offered state.scope.projections
  planned : ArePlanned registry plan reached

theorem State.Offers.trans {registry : Registry} {plan : JoinPlan} {middle : State} {offered others : List Projection}
    {reached further : List Reached} (first : State.Offers registry plan state middle offered reached)
    (second : State.Offers registry plan middle after others further) :
    State.Offers registry plan state after (offered ++ others) (reached ++ further) where
  columns := by rw [second.columns, first.columns, putColumns_append]
  planned := List.forall_mem_append.mpr ⟨first.planned, second.planned⟩

theorem join_offers (joins : state.join setting path a e table = .ok (after, joined)) :
    after.scope.projections = state.scope.projections ∧ ∀ plan : JoinPlan, after.plan.entries <+: plan.entries →
      (plan.find? path a.id).isSome = true ∧ plan.tableAt path a = joined := by
  obtain ⟨-, entry, found, number, same⟩ := join_planned joins
  refine ⟨by rw [same]; exact Scope.addJoin_projections entry.join, fun plan grown => ?_⟩
  have planned := find?_of_prefix found grown
  exact ⟨by rw [planned]; rfl, by rw [JoinPlan.tableAt, planned, ← number]; rfl⟩

theorem walkOrAll_offers {nodes : List FilterNode} (inStep : state.scope.IsInStep)
    (below : walk setting [target] table path nodes state = .ok after → ∀ plan : JoinPlan,
      after.plan.entries <+: plan.entries → State.Offers setting.registry plan state after
        (offeredOfAll setting.registry plan [target] table path nodes)
        (reachedOfAll setting.registry plan [target] table path nodes))
    (succeeded : walkOrAll setting target table path nodes state = .ok after) (plan : JoinPlan)
    (grown : after.plan.entries <+: plan.entries) : State.Offers setting.registry plan state after
      (offeredOrAll setting.registry plan target table path nodes)
      (reachedOfAll setting.registry plan [target] table path nodes) := by
  unfold offeredOrAll
  rcases walkOrAll_cases succeeded with ⟨rfl, rfl⟩ | ⟨filled, walked⟩
  · exact ⟨projectColumns_projections inStep, by simp [ArePlanned, reachedOfAll]⟩
  · rw [if_neg fun empty => filled (List.isEmpty_iff.mp empty)]
    exact below walked plan grown

mutual

theorem walk_offers (nodes : List FilterNode) {entities : List Entity} {table : Nat} {above : String}
    {state after : State} (inStep : state.scope.IsInStep)
    (succeeded : walk setting entities table above nodes state = .ok after) (plan : JoinPlan)
    (grown : after.plan.entries <+: plan.entries) : State.Offers setting.registry plan state after
      (offeredOfAll setting.registry plan entities table above nodes)
      (reachedOfAll setting.registry plan entities table above nodes) := by
  match nodes with
  | [] =>
      cases succeeded
      exact ⟨rfl, by simp [ArePlanned, reachedOfAll]⟩
  | node :: rest =>
      obtain ⟨middle, first, succeeded⟩ := bind_eq_ok.mp succeeded
      have further := (walk_gathers rest succeeded).1
      have middleInStep := walkNode_isInStep node inStep first
      exact (walkNode_offers node inStep first plan (further.trans grown)).trans
        (walk_offers rest middleInStep succeeded plan grown)

theorem walkNode_offers (node : FilterNode) {entities : List Entity} {table : Nat} {above : String}
    {state after : State} (inStep : state.scope.IsInStep)
    (succeeded : walkNode setting entities table above node state = .ok after) (plan : JoinPlan)
    (grown : after.plan.entries <+: plan.entries) : State.Offers setting.registry plan state after
      (offeredOf setting.registry plan entities table above node)
      (reachedOf setting.registry plan entities table above node) := by
  match node with
  | ⟨item, children⟩ =>
      cases walkNode_cases succeeded with
      | passed found => exact ⟨by simp [offeredOf, found, putColumns], by simp [ArePlanned, reachedOf, found]⟩
      | @counted e target a aggregate reached joined found counts leads joins =>
          obtain ⟨same, isPlanned⟩ := join_offers joins
          obtain ⟨planned, number⟩ := isPlanned plan grown
          refine ⟨?_, ?_⟩
          · simp only [offeredOf, found, counts, leads, number]
            rw [← same]
            exact (join_isInStep inStep joins).projections_project ..
          · simp only [reachedOf, found, counts, Option.isSome_some, Bool.true_or, if_true]
            exact List.forall_mem_singleton.mpr fun _ => ⟨target, leads, planned⟩
      | @collection e a found plain collection =>
          refine ⟨?_, ?_⟩
          · have offered : offeredOf setting.registry plan entities table above ⟨item, children⟩ =
                e.sideColumns (a.joinColumns.map (·.source)) table above := by
              simp only [offeredOf, found, plain, collection, if_true]
              split <;> simp_all
            rw [offered]
            exact projectJoinSide_projections inStep
          · simp [ArePlanned, reachedOf, found, plain, collection, Reached.isJoined]
      | column found plain isColumn =>
          have single := Attribute.isCollection_of_column isColumn
          refine ⟨?_, ?_⟩
          · simp only [offeredOf, found, plain, single, targetOf_column isColumn, isColumn, Bool.false_eq_true, if_false]
            exact walkColumn_putColumns inStep
          · simp [ArePlanned, reachedOf, found, plain, single, targetOf_column isColumn, Reached.isJoined, isColumn]
      | @association e target a reached inside joined found plain single leads joins walked =>
          obtain ⟨same, isPlanned⟩ := join_offers joins
          obtain ⟨planned, number⟩ := isPlanned plan ((walkOrAll_gathers walked).1.trans grown)
          have reachedInStep := join_isInStep inStep joins
          have below := walkOrAll_offers reachedInStep (walk_offers children reachedInStep) walked plan grown
          refine ⟨?_, ?_⟩
          · rw [finishAssociation_projections (walkOrAll_isInStep reachedInStep walked), below.columns, same,
            ← putColumns_append]
            simp only [offeredOf, found, plain, single, leads, number, Bool.false_eq_true, if_false, offeredOrAll,
              List.append_assoc]
          · simp only [reachedOf, found, plain, single, leads, number, Option.isSome_none, Bool.or_self,
              Bool.false_eq_true, if_false]
            exact List.forall_mem_cons.mpr ⟨fun _ => ⟨target, leads, planned⟩, below.planned⟩

end

end Walk

section Offered

variable {registry : Registry} {setting : Setting} {plan : JoinPlan} {roots es : List Entity} {table : Nat}
  {above : String} {nodes : List FilterNode} {n : FilterNode} {x : Reached} {p : Projection} {way : List JoinEntry}
  {e target : Entity} {a : Attribute}

theorem offeredOf_subset (member : n ∈ nodes) :
    offeredOf registry plan es table above n ⊆ offeredOfAll registry plan es table above nodes := by
  induction nodes with
  | nil => contradiction
  | cons first rest ih =>
      rw [offeredOfAll]
      rcases List.mem_cons.mp member with rfl | later
      · exact List.subset_append_left _ _
      · exact List.Subset.trans (ih later) (List.subset_append_right _ _)

theorem IsReached.column_mem_offered (reached : IsReached registry plan es table above nodes x)
    (isColumn : x.isColumn = true) {column : String} (stored : x.subject.column = some column) :
    ⟨.columnOf x.table column, ⟨x.alias, some x.subject, .value⟩⟩ ∈
      offeredOfAll registry plan es table above nodes := by
  induction reached with
  | @here es table above nodes n e a member found =>
      refine offeredOf_subset member ?_
      obtain ⟨item, children⟩ := n
      simp only [Reached.isColumn, Bool.and_eq_true, Bool.not_eq_true', Option.isNone_iff_eq_none] at isColumn
      have isStored : a.column = some column := stored
      simp only [offeredOf, found, isColumn.1, isColumn.2, targetOf_column isColumn.2,
        Attribute.isCollection_of_column isColumn.2, Bool.false_eq_true, if_false, isStored]
      exact List.mem_singleton_self _
  | @further es table above nodes n e target a x member found plain single leads inside ih =>
      refine offeredOf_subset member ?_
      obtain ⟨item, children⟩ := n
      have counted : item.aggregate = none := plain
      have filled : children.isEmpty = false := by
        cases children with
        | nil => cases inside <;> contradiction
        | cons => rfl
      simp only [offeredOf, found, counted, single, leads, filled, Bool.false_eq_true, if_false]
      exact List.mem_append_left _ (List.mem_append_left _ (List.mem_append_left _ (ih isColumn stored)))

theorem IsReached.count_mem_offered (reached : IsReached registry plan es table above nodes x)
    (counted : x.item.aggregate.isSome = true) (leads : registry.targetOf x.subject = .ok target) :
    ∃ expr, ⟨expr, ⟨x.alias, none, .aggregate⟩⟩ ∈ offeredOfAll registry plan es table above nodes := by
  induction reached with
  | @here es table above nodes n e a member found =>
      obtain ⟨item, children⟩ := n
      obtain ⟨aggregate, counted⟩ := Option.isSome_iff_exists.mp counted
      refine ⟨.function aggregate.functionName [.wholeRow (plan.tableAt (Path.child above a.property) a)
        (((target.identityKeys.head?).bind (·.column)).getD "")], offeredOf_subset member ?_⟩
      have counts : item.aggregate = some aggregate := counted
      simp only [offeredOf, found, counts, leads]
      exact List.mem_singleton_self _
  | @further es table above nodes n e target a x member found plain single leads' inside ih =>
      obtain ⟨item, children⟩ := n
      obtain ⟨expr, offered⟩ := ih counted leads
      refine ⟨expr, offeredOf_subset member ?_⟩
      have counted : item.aggregate = none := plain
      have filled : children.isEmpty = false := by
        cases children with
        | nil => cases inside <;> contradiction
        | cons => rfl
      simp only [offeredOf, found, counted, single, leads', filled, Bool.false_eq_true, if_false]
      exact List.mem_append_left _ (List.mem_append_left _ (List.mem_append_left _ offered))

end Offered

end Compile

end ViewEngine
