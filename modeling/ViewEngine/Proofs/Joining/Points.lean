import ViewEngine.Proofs.Isolation.Primary
import ViewEngine.Proofs.Joining.Chains
import ViewEngine.Proofs.Selection.Rounds

/-!
Where a compilation comes to, from one join to the next. Each step keeps the plan in order: entries are added behind
those that there are, under the next number and for an association that has none at its path, and they start from a
table that is known. Main statement: wherever a compilation comes to, the joins that lead to a table can be told.
-/

namespace ViewEngine

open Compile JoinPlan

/-- A plan with one entry for each association at each path. The entries are numbered as they were added, and each is
the join of its association with the root's table or that of an earlier entry. -/
structure JoinPlan.IsOrdered (setting : Setting) (plan : JoinPlan) : Prop where
  distinct : (plan.entries.map fun j => (j.path, j.subject.id)).Nodup
  sequential : plan.IsSequential
  sources : ∀ i j, plan.entries[i]? = some j → j.source = 0 ∨ ∃ k ∈ plan.entries.take i, k.table = j.source
  entries : ∀ j ∈ plan.entries, j.IsBuilt setting

namespace Compile

/-- What is left to do at some point: to begin, to visit nodes on the rows of a table, or to make the statements of
collections. -/
inductive Point
  | tree
  | nodes (entities : List Entity) (table : Nat) (above : String) (nodes : List FilterNode) (state : State)
  | collections (pending : List DeferredCollection) (plan : JoinPlan) (next : Nat) (deferred : List DeferredCollection)

namespace Point

def plan : Point → JoinPlan
  | tree => {}
  | nodes _ _ _ _ state => state.plan
  | collections _ plan _ _ => plan

def next : Point → Nat
  | tree => 1
  | nodes _ _ _ _ state => state.nextTable
  | collections _ _ next _ => next

def tables : Point → List Nat
  | tree => [0]
  | nodes _ table _ _ state => table :: state.deferred.map (·.sourceTable)
  | collections pending _ _ deferred => (pending ++ deferred).map (·.sourceTable)

end Point

/-- How a compilation goes on. It visits the nodes of the tree, and then makes the statements of collections, round by
round. After each join it comes to the nodes below, of which there may be none. -/
inductive Step (setting : Setting) (r : Root) (t : FilterTree) : Point → Point → Prop
  | roots : Step setting r t .tree (.nodes t.roots 0 "" t.nodes ⟨r.begun t.nodes, {}, 1, []⟩)
  | visited {es : List Entity} {table : Nat} {above : String} {n : FilterNode} {rest : List FilterNode}
      {state after : State} (walked : walkNode setting es table above n state = .ok after) :
      Step setting r t (.nodes es table above (n :: rest) state) (.nodes es table above rest after)
  -- Rows that are counted have no nodes below them.
  | counted {es : List Entity} {table joined : Nat} {above : String} {item : FilterItem}
      {children rest : List FilterNode} {state after : State} {e target : Entity} {a : Attribute}
      (found : resolve? item es = some (e, a)) (counts : item.aggregate.isSome = true)
      (leads : setting.registry.targetOf a = .ok target)
      (joins : state.join setting (Path.child above a.property) a e table = .ok (after, joined)) :
      Step setting r t (.nodes es table above (⟨item, children⟩ :: rest) state)
        (.nodes [target] joined (Path.child above a.property) [] after)
  | below {es : List Entity} {table joined : Nat} {above : String} {item : FilterItem}
      {children rest : List FilterNode} {state after : State} {e target : Entity} {a : Attribute}
      (found : resolve? item es = some (e, a)) (plain : item.aggregate = none) (single : a.isCollection = false)
      (leads : setting.registry.targetOf a = .ok target)
      (joins : state.join setting (Path.child above a.property) a e table = .ok (after, joined)) :
      Step setting r t (.nodes es table above (⟨item, children⟩ :: rest) state)
        (.nodes [target] joined (Path.child above a.property) children after)
  | collected {last : State} (made : primary setting r t = .ok last) :
      Step setting r t .tree (.collections last.deferred last.plan last.nextTable [])
  | elements {c : DeferredCollection} {rest deferred : List DeferredCollection} {plan : JoinPlan} {target : Entity}
      {next table : Nat} {state : State} (leads : setting.registry.targetOf c.subject = .ok target)
      (joins : State.join ⟨r.identified c plan, plan, next, deferred⟩ setting c.path c.subject c.sourceEntity
        c.sourceTable = .ok (state, table)) :
      Step setting r t (.collections (c :: rest) plan next deferred) (.nodes [target] table c.path c.nodes
        (state.mapScope fun s => { s with enclosing := s.enclosing ++ [⟨c.path, target, table⟩] }))
  | statement {c : DeferredCollection} {rest deferred further : List DeferredCollection} {plan after : JoinPlan}
      {next following : Nat} {s : SubSelect}
      (made : subSelect setting r c plan next deferred = .ok (s, after, following, further)) :
      Step setting r t (.collections (c :: rest) plan next deferred) (.collections rest after following further)
  | round {deferred : List DeferredCollection} {plan : JoinPlan} {next : Nat} (some : deferred ≠ []) :
      Step setting r t (.collections [] plan next deferred) (.collections deferred plan next [])

/-- The points that a compilation comes to. -/
def ComesTo (setting : Setting) (r : Root) (t : FilterTree) : Point → Prop :=
  Relation.ReflTransGen (Step setting r t) .tree

/-- A plan in order, with the number that comes next. It has the tables that collections start from. -/
structure AreOrdered (setting : Setting) (plan : JoinPlan) (next : Nat) (deferred : List DeferredCollection) :
    Prop where
  isOrdered : plan.IsOrdered setting
  follows : plan.IsNext next
  sources : ∀ c ∈ deferred, plan.HasTable c.sourceTable

end Compile

namespace JoinPlan.IsOrdered

variable {setting : Setting} {plan : JoinPlan} {j : JoinEntry}

theorem empty : (⟨[]⟩ : JoinPlan).IsOrdered setting where
  distinct := List.nodup_nil
  sequential i j there := by simp at there
  sources i j there := by simp at there
  entries j member := by simp at member

theorem earlier (ordered : plan.IsOrdered setting) : ∀ j ∈ plan.entries, j.source < j.table :=
  fun j member => (ordered.entries j member).earlier

theorem add (ordered : plan.IsOrdered setting) (built : j.IsBuilt setting) (next : plan.IsNext j.table)
    (fresh : plan.find? j.path j.subject.id = none) : (plan.add j).IsOrdered setting := by
  have sequential := ordered.sequential.add next
  have entries : ∀ k ∈ (plan.add j).entries, k.IsBuilt setting := by
    intro k member
    rcases List.mem_append.mp member with old | new
    · exact ordered.entries k old
    · rw [List.mem_singleton.mp new]
      exact built
  refine ⟨?_, sequential, fun i k there => ?_, entries⟩
  · rw [JoinPlan.add, List.map_append, List.nodup_append]
    refine ⟨ordered.distinct, List.nodup_singleton _, fun known old other new same => ?_⟩
    obtain ⟨k, member, rfl⟩ := List.mem_map.mp old
    rw [List.map_singleton, List.mem_singleton] at new
    obtain ⟨path, id⟩ := Prod.mk.inj (same.trans new)
    have absent := List.find?_eq_none.mp fresh k member
    simp [path, id] at absent
  · exact exists_earlier sequential (fun k member => (entries k member).earlier) there

/-- The joins that lead to a table are found by going back from it, in one way, and lead there from the root. -/
theorem chainTo (ordered : plan.IsOrdered setting) (table : Nat) :
    ∃ way, (∀ other, plan.Traces table other ↔ other = way) ∧ plan.IsWay table way ∧
      plan.chainTo table = way.map (·.join) := by
  obtain ⟨way, traces⟩ := exists_traces ordered.earlier table
  refine ⟨way, fun other => ⟨fun another => another.unique traces, fun same => ?_⟩, ?_, ?_⟩
  · rwa [same]
  · exact traces.isWay ordered.earlier ordered.sequential
  · exact traces.chainTo ordered.earlier ordered.sequential

end JoinPlan.IsOrdered

namespace Compile

variable {setting : Setting} {r : Root} {t : FilterTree} {plan after : JoinPlan}
  {deferred further collections : List DeferredCollection} {c : DeferredCollection} {s : SubSelect}
  {next following : Nat}

theorem AreOrdered.mono (ordered : AreOrdered setting plan next deferred) (isOrdered : after.IsOrdered setting)
    (follows : after.IsNext following) (grown : plan.entries <+: after.entries) :
    AreOrdered setting after following deferred :=
  ⟨isOrdered, follows, fun c member => (ordered.sources c member).mono grown⟩

section Walks

variable {state last : State} {path above : String} {a : Attribute} {e target : Entity} {table joined : Nat}
  {nodes : List FilterNode}

theorem join_ordered (ordered : AreOrdered setting state.plan state.nextTable state.deferred)
    (has : state.plan.HasTable table)
    (joins : state.join setting path a e table = .ok (last, joined)) :
    AreOrdered setting last.plan last.nextTable last.deferred ∧ last.plan.HasTable joined := by
  obtain ⟨grown, entry, planned, number, -⟩ := join_planned joins
  have member := List.mem_of_find?_eq_some planned
  refine ⟨?_, .inr ⟨entry, member, number⟩⟩
  rw [join_deferred joins]
  unfold State.join at joins
  split at joins
  next =>
    cases joins
    exact ordered
  next absent =>
    obtain ⟨target, leads, joins⟩ := bind_eq_ok.mp joins
    cases joins
    have within := (IsSequential.hasTable_iff ordered.isOrdered.sequential).mp has
    have earlier : table < state.nextTable := ordered.follows ▸ Nat.lt_succ_of_le within
    exact ordered.mono (ordered.isOrdered.add ⟨leads, rfl, earlier⟩ ordered.follows absent) ordered.follows.add grown

theorem walkCollection_ordered {children : List FilterNode}
    (ordered : AreOrdered setting state.plan state.nextTable state.deferred)
    (has : state.plan.HasTable table) :
    AreOrdered setting state.plan state.nextTable (walkCollection children a e table above path state).deferred := by
  refine ⟨ordered.isOrdered, ordered.follows, fun c member => ?_⟩
  rcases mem_defer member with rfl | old | ⟨other, old, rfl⟩
  · exact has
  · exact ordered.sources c old
  · exact ordered.sources other old

theorem walkOrAll_of_walks (ordered : AreOrdered setting state.plan state.nextTable state.deferred)
    (walks : walk setting [target] table path nodes state = .ok last →
      AreOrdered setting last.plan last.nextTable last.deferred)
    (succeeded : walkOrAll setting target table path nodes state = .ok last) :
    AreOrdered setting last.plan last.nextTable last.deferred := by
  rcases walkOrAll_cases succeeded with ⟨-, rfl⟩ | ⟨-, walked⟩
  · exact ordered
  · exact walks walked

mutual

theorem walk_ordered (nodes : List FilterNode) {entities : List Entity} {table : Nat} {above : String}
    {state last : State} (ordered : AreOrdered setting state.plan state.nextTable state.deferred)
    (has : state.plan.HasTable table)
    (succeeded : walk setting entities table above nodes state = .ok last) :
    AreOrdered setting last.plan last.nextTable last.deferred := by
  match nodes with
  | [] =>
      cases succeeded
      exact ordered
  | node :: rest =>
      obtain ⟨middle, first, succeeded⟩ := bind_eq_ok.mp succeeded
      have here := walkNode_ordered node ordered has first
      exact walk_ordered rest here (has.mono (walkNode_gathers node first).1) succeeded

theorem walkNode_ordered (node : FilterNode) {entities : List Entity} {table : Nat} {above : String}
    {state last : State} (ordered : AreOrdered setting state.plan state.nextTable state.deferred)
    (has : state.plan.HasTable table)
    (succeeded : walkNode setting entities table above node state = .ok last) :
    AreOrdered setting last.plan last.nextTable last.deferred := by
  match node with
  | ⟨item, children⟩ =>
      cases walkNode_cases succeeded with
      | passed => exact ordered
      | counted found counts leads joins => exact (join_ordered ordered has joins).1
      | collection => exact walkCollection_ordered ordered has
      | column =>
          rw [walkColumn_plan.1, walkColumn_nextTable, walkColumn_plan.2]
          exact ordered
      | association found plain single leads joins walked =>
          obtain ⟨first, hasJoined⟩ := join_ordered ordered has joins
          have below := walkOrAll_of_walks first (walk_ordered children first hasJoined) walked
          exact below

end

end Walks

section Statements

theorem subSelect_ordered (ordered : AreOrdered setting plan next (c :: deferred))
    (made : subSelect setting r c plan next deferred = .ok (s, after, following, further)) :
    AreOrdered setting after following further := by
  obtain ⟨has, others⟩ := List.forall_mem_cons.mp ordered.sources
  obtain ⟨target, reached, table, inside, -, joins, below, rfl, rfl, rfl, rfl⟩ := subSelect_cases made
  obtain ⟨first, hasTable⟩ := join_ordered ⟨ordered.isOrdered, ordered.follows, others⟩ has joins
  have entered : AreOrdered setting (reached.mapScope fun s =>
      { s with enclosing := s.enclosing ++ [⟨c.path, target, table⟩] }).plan reached.nextTable reached.deferred := first
  have walked := walkOrAll_of_walks entered (walk_ordered c.nodes entered hasTable) below
  exact walked

theorem primary_ordered {last : State} (made : primary setting r t = .ok last) :
    AreOrdered setting last.plan last.nextTable last.deferred := by
  obtain ⟨inside, walked, made⟩ := bind_eq_ok.mp made
  cases made
  have begun : AreOrdered setting {} 1 [] := ⟨.empty, .empty, fun c none => absurd none List.not_mem_nil⟩
  have last := walk_ordered t.nodes begun (.inl rfl) walked
  exact last

end Statements

section Steps

variable {p q : Point}

/-- At each point the plan is in order, the number to come is that behind its entries, and it has the tables from which
something may still be joined. -/
structure Point.IsOrdered (setting : Setting) (p : Point) : Prop where
  plan : p.plan.IsOrdered setting
  follows : p.plan.IsNext p.next
  known : ∀ n ∈ p.tables, p.plan.HasTable n

theorem Point.isOrdered_nodes {es : List Entity} {table : Nat} {above : String} {nodes : List FilterNode}
    {state : State} : (Point.nodes es table above nodes state).IsOrdered setting ↔
      state.plan.HasTable table ∧ AreOrdered setting state.plan state.nextTable state.deferred := by
  constructor
  · intro ordered
    obtain ⟨has, sources⟩ := List.forall_mem_cons.mp ordered.known
    exact ⟨has, ordered.plan, ordered.follows, List.forall_mem_map.mp sources⟩
  · intro ⟨has, ordered⟩
    exact ⟨ordered.isOrdered, ordered.follows, List.forall_mem_cons.mpr ⟨has, List.forall_mem_map.mpr ordered.sources⟩⟩

theorem Point.isOrdered_collections :
    (Point.collections collections plan next deferred).IsOrdered setting ↔
      AreOrdered setting plan next (collections ++ deferred) := by
  constructor
  · intro ordered
    exact ⟨ordered.plan, ordered.follows, List.forall_mem_map.mp ordered.known⟩
  · intro ordered
    exact ⟨ordered.isOrdered, ordered.follows, List.forall_mem_map.mpr ordered.sources⟩

/-- A step keeps the plan in order, and lets entries come behind those that there are. -/
theorem Step.ordered (step : Step setting r t p q) (ordered : p.IsOrdered setting) :
    q.IsOrdered setting ∧ p.plan.entries <+: q.plan.entries := by
  cases step with
  | roots =>
      refine ⟨Point.isOrdered_nodes.mpr ⟨.inl rfl, .empty, .empty, ?_⟩, List.prefix_refl _⟩
      exact fun c none => absurd none List.not_mem_nil
  | visited walked =>
      obtain ⟨has, before⟩ := Point.isOrdered_nodes.mp ordered
      have grown := (walkNode_gathers _ walked).1
      exact ⟨Point.isOrdered_nodes.mpr ⟨has.mono grown, walkNode_ordered _ before has walked⟩, grown⟩
  | counted found counts leads joins =>
      obtain ⟨has, before⟩ := Point.isOrdered_nodes.mp ordered
      obtain ⟨after, hasJoined⟩ := join_ordered before has joins
      exact ⟨Point.isOrdered_nodes.mpr ⟨hasJoined, after⟩, (join_planned joins).1⟩
  | below found plain single leads joins =>
      obtain ⟨has, before⟩ := Point.isOrdered_nodes.mp ordered
      obtain ⟨after, hasJoined⟩ := join_ordered before has joins
      exact ⟨Point.isOrdered_nodes.mpr ⟨hasJoined, after⟩, (join_planned joins).1⟩
  | collected made =>
      refine ⟨Point.isOrdered_collections.mpr ?_, List.nil_prefix⟩
      rw [List.append_nil]
      exact primary_ordered made
  | @elements c rest deferred plan target next table state leads joins =>
      have before := Point.isOrdered_collections.mp ordered
      obtain ⟨has, others⟩ := List.forall_mem_cons.mp before.sources
      obtain ⟨after, hasJoined⟩ := join_ordered
        ⟨before.isOrdered, before.follows, fun d member => others d (List.mem_append_right rest member)⟩ has joins
      exact ⟨Point.isOrdered_nodes.mpr ⟨hasJoined, after⟩, (join_planned joins).1⟩
  | @statement c rest deferred further plan after next following s made =>
      have before := Point.isOrdered_collections.mp ordered
      obtain ⟨has, others⟩ := List.forall_mem_cons.mp before.sources
      obtain ⟨waiting, put⟩ := List.forall_mem_append.mp others
      have grown := (subSelect_serves made).1
      have later := subSelect_ordered ⟨before.isOrdered, before.follows, List.forall_mem_cons.mpr ⟨has, put⟩⟩ made
      -- Those that wait were put down when the plan had fewer entries.
      refine ⟨Point.isOrdered_collections.mpr ⟨later.isOrdered, later.follows, ?_⟩, grown⟩
      exact List.forall_mem_append.mpr ⟨fun d member => (waiting d member).mono grown, later.sources⟩
  | round some =>
      refine ⟨Point.isOrdered_collections.mpr ?_, List.prefix_refl _⟩
      rw [List.append_nil]
      exact Point.isOrdered_collections.mp ordered

theorem ComesTo.ordered (comes : ComesTo setting r t p) : p.IsOrdered setting := by
  induction comes with
  | refl =>
      refine ⟨.empty, .empty, List.forall_mem_singleton.mpr ?_⟩
      exact .inl rfl
  | tail _ step ih => exact (step.ordered ih).1

theorem steps_of_subSelects {pending : List DeferredCollection} {found : List SubSelect}
    (made : subSelects setting r pending plan next deferred = .ok (found, after, following, further)) :
    Relation.ReflTransGen (Step setting r t) (.collections pending plan next deferred)
      (.collections [] after following further) := by
  induction pending generalizing plan next deferred found with
  | nil =>
      cases made
      exact .refl
  | cons c rest ih =>
      obtain ⟨⟨first, middle, number, between⟩, firstMade, made⟩ := bind_eq_ok.mp made
      obtain ⟨⟨others, last, final, remaining⟩, othersMade, made⟩ := bind_eq_ok.mp made
      cases made
      exact .head (.statement firstMade) (ih othersMade)

theorem steps_of_runsOut {found : List SubSelect} {result : Except SchemaError (List SubSelect × JoinPlan)}
    (runs : RunsOut setting r deferred plan next result) (succeeded : result = .ok (found, after)) :
    ∃ last, Relation.ReflTransGen (Step setting r t)
      (.collections deferred plan next []) (.collections [] after last []) := by
  induction runs generalizing found with
  | done plan next =>
      cases succeeded
      exact ⟨next, .refl⟩
  | fails => contradiction
  | @round deferred further plan middle next following first result some made rest ih =>
      obtain ⟨⟨later, last⟩, remaining, same⟩ := map_eq_ok.mp succeeded
      cases same
      have turn := steps_of_subSelects (t := t) made
      obtain ⟨number, steps⟩ := ih remaining
      by_cases done : further = []
      · subst done
        exact ⟨number, turn.trans steps⟩
      · exact ⟨number, turn.trans (.head (.round done) steps)⟩

end Steps

end Compile

/-- Wherever a compilation comes to, its plan is in order, and the joins that lead to a table are those that are found
by going back from it. A step only adds entries, and the plan of a view is that of its last point. -/
theorem joins_lead_from_root (registry : Registry) (settings : ViewSettings) (pointInTime : Option Timestamp)
    (t : FilterTree) :
    (∀ p, ComesTo ⟨registry, pointInTime⟩ (.ofTree settings t) t p → p.IsOrdered ⟨registry, pointInTime⟩ ∧
      (∀ table, ∃ way, (∀ other, p.plan.Traces table other ↔ other = way) ∧ p.plan.IsWay table way ∧
        p.plan.chainTo table = way.map (·.join)) ∧
      ∀ q, Step ⟨registry, pointInTime⟩ (.ofTree settings t) t p q → p.plan.entries <+: q.plan.entries) ∧
    ∀ dialect page v, compile registry settings dialect pointInTime page t = .ok v →
      ∃ next, ComesTo ⟨registry, pointInTime⟩ (.ofTree settings t) t (.collections [] v.joinPlan next []) := by
  constructor
  · intro p comes
    have ordered := comes.ordered
    exact ⟨ordered, ordered.plan.chainTo, fun q step => (step.ordered ordered).2⟩
  · intro dialect page v compiled
    obtain ⟨last, made, runs⟩ := compile_runsOut compiled
    obtain ⟨next, steps⟩ := steps_of_runsOut runs rfl
    exact ⟨next, .head (.collected made) steps⟩

namespace Outline

set_option maxRecDepth 100000 in
/-- The products of orders are joined behind the lines. -/
theorem products_behind_lines : ∃ registry t v, orders.compiled? = some (registry, t, v) ∧
    v.joinPlan.entries.map (fun j => (j.path, j.source, j.table)) =
      [("customer", 0, 1), ("lines", 0, 2), ("lines.product", 2, 3)] ∧
    (v.joinPlan.chainTo 3).map (·.table.table) = ["line", "product"] ∧
    ComesTo ⟨registry, none⟩ (.ofTree {} t) t (.collections [] v.joinPlan 4 []) ∧
    v.joinPlan.IsOrdered ⟨registry, none⟩ ∧
    (∀ table, ∃ way, (∀ other, v.joinPlan.Traces table other ↔ other = way) ∧ v.joinPlan.IsWay table way ∧
      v.joinPlan.chainTo table = way.map (·.join)) ∧
    ∃ p, ComesTo ⟨registry, none⟩ (.ofTree {} t) t p ∧
      Step ⟨registry, none⟩ (.ofTree {} t) t p (.collections [] v.joinPlan 4 []) ∧
      p.plan.entries <+: v.joinPlan.entries := by
  have checked : (orders.compiled?.map fun found =>
      found.2.2.joinPlan.entries.map (fun j => (j.path, j.source, j.table)) ==
        [("customer", 0, 1), ("lines", 0, 2), ("lines.product", 2, 3)] &&
      (found.2.2.joinPlan.chainTo 3).map (·.table.table) == ["line", "product"]) = some true := by
    decide +kernel
  obtain ⟨⟨registry, t, v⟩, found, checked⟩ := Option.map_eq_some_iff.mp checked
  simp only [Bool.and_eq_true, beq_iff_eq] at checked
  obtain ⟨entries, chain⟩ := checked
  obtain ⟨-, -, compiled⟩ := compiled_eq found
  obtain ⟨points, ends⟩ := joins_lead_from_root registry {} none t
  obtain ⟨next, comes⟩ := ends _ _ v compiled
  obtain ⟨ordered, ways, -⟩ := points _ comes
  obtain rfl : next = 4 := by
    have length := congrArg List.length entries
    rw [List.length_map] at length
    exact ordered.follows.trans (congrArg (· + 1) length)
  obtain ⟨p, before, step⟩ := (Relation.ReflTransGen.cases_tail comes).resolve_left (by simp)
  have grown := (points p before).2.2 _ step
  exact ⟨registry, t, v, found, entries, chain, comes, ordered.plan, ways, p, before, step, grown⟩

end Outline

end ViewEngine
