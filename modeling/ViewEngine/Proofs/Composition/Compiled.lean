import ViewEngine.Proofs.Composition.Made
import ViewEngine.Proofs.Compilation.Reached
import ViewEngine.Proofs.Compilation.Scoping
import ViewEngine.Proofs.Selection.Rounds

/-!
Trees that are sound can be compiled. A walk joins what associations lead to, which is known, and puts down collections
of which the same holds; so there is a statement for each of these as well.
-/

namespace ViewEngine

open Sql Compile

namespace Compile

/-- A collection, with sound nodes, that is registered. -/
structure DeferredCollection.IsSound (registry : Registry) (c : DeferredCollection) : Prop where
  subject : registry.Has c.subject
  association : c.subject.isAssociation = true
  nodes : ∀ n ∈ c.nodes, n.IsSound registry

def AreSound (registry : Registry) (deferred : List DeferredCollection) : Prop :=
  ∀ c ∈ deferred, c.IsSound registry

variable {setting : Setting} {e target : Entity} {a : Attribute} {c : DeferredCollection} {item : FilterItem}
  {collections deferred : List DeferredCollection} {entities : List Entity} {children nodes : List FilterNode}
  {table : Nat} {above path : String} {state : State} {t : FilterTree}

theorem AreSound.defer {registry : Registry} (others : AreSound registry deferred) (sound : c.IsSound registry) :
    AreSound registry (defer c deferred) := by
  intro d member
  rcases mem_defer member with rfl | old | ⟨other, inside, rfl⟩
  · exact sound
  · exact others d old
  · have stood := others other inside
    refine ⟨stood.subject, stood.association, fun n among => ?_⟩
    exact (List.mem_append.mp among).elim (stood.nodes n) (sound.nodes n)

section Walks

theorem walkAggregate_exists (found : setting.registry.targetOf a = .ok target) (item : FilterItem)
    (operation : Aggregate) (e : Entity) (table : Nat) (path : String) (state : State) :
    ∃ last, walkAggregate setting item operation a e table path state = .ok last ∧ last.deferred = state.deferred := by
  obtain ⟨reached, joined, joins⟩ := join_exists found state path e table
  have same := join_deferred joins
  unfold walkAggregate
  simp only [found, joins, bind, Except.bind]
  exact ⟨_, rfl, same⟩

/-- The walk over some nodes of an entity succeeds wherever that stands. -/
def Walks (setting : Setting) (target : Entity) (nodes : List FilterNode) : Prop :=
  ∀ (table : Nat) (path : String) (state : State), AreSound setting.registry state.deferred →
    ∃ last, walk setting [target] table path nodes state = .ok last ∧ AreSound setting.registry last.deferred

theorem walkOrAll_exists (walks : Walks setting target nodes) (table : Nat) (path : String)
    (ready : AreSound setting.registry state.deferred) :
    ∃ last, walkOrAll setting target table path nodes state = .ok last ∧
      AreSound setting.registry last.deferred := by
  unfold walkOrAll
  split
  · exact ⟨_, rfl, ready⟩
  · exact walks table path state ready

theorem walkAssociation_exists (resolved : resolve? item entities = some (e, a)) (plain : item.aggregate = none)
    (single : a.isCollection = false) (isAssociation : a.isAssociation = true)
    (found : setting.registry.targetOf a = .ok target) (walks : Walks setting target children) (table : Nat)
    (above : String) (ready : AreSound setting.registry state.deferred) :
    ∃ last, walkNode setting entities table above ⟨item, children⟩ state = .ok last ∧
      AreSound setting.registry last.deferred := by
  obtain ⟨reached, joined, joins⟩ := join_exists found state (Path.child above a.property) e table
  have between : AreSound setting.registry reached.deferred := join_deferred joins ▸ ready
  obtain ⟨inside, walked, after⟩ := walkOrAll_exists walks joined (Path.child above a.property) between
  refine ⟨finishAssociation a e target table joined above (Path.child above a.property) inside, ?_, after⟩
  rw [walkNode_association resolved plain single isAssociation]
  simp only [found, joins, walked, bind, Except.bind]
  rfl

mutual

theorem walk_exists (registered : setting.registry.IsRegistered) (unambiguous : setting.registry.IsUnambiguous)
    (nodes : List FilterNode) {entities : List Entity} {table : Nat} {above : String} {state : State}
    (known : ∀ e ∈ entities, e ∈ setting.registry.all) (sound : ∀ n ∈ nodes, n.IsSound setting.registry)
    (ready : AreSound setting.registry state.deferred) :
    ∃ last, walk setting entities table above nodes state = .ok last ∧
      AreSound setting.registry last.deferred := by
  match nodes with
  | [] => exact ⟨state, rfl, ready⟩
  | n :: rest =>
      obtain ⟨middle, first, between⟩ :=
        walkNode_exists registered unambiguous n known (sound n (List.mem_cons_self ..)) ready
      obtain ⟨last, others, after⟩ := walk_exists registered unambiguous rest known
        (fun m among => sound m (List.mem_cons_of_mem _ among)) between
      refine ⟨last, ?_, after⟩
      rw [walk, first]
      exact others

theorem walkNode_exists (registered : setting.registry.IsRegistered) (unambiguous : setting.registry.IsUnambiguous)
    (n : FilterNode) {entities : List Entity} {table : Nat} {above : String} {state : State}
    (known : ∀ e ∈ entities, e ∈ setting.registry.all) (sound : n.IsSound setting.registry)
    (ready : AreSound setting.registry state.deferred) :
    ∃ last, walkNode setting entities table above n state = .ok last ∧
      AreSound setting.registry last.deferred := by
  match n with
  | ⟨item, children⟩ =>
      obtain ⟨own, -, below⟩ := sound
      cases resolved : resolve? item entities with
      | none => exact ⟨state, by simp only [walkNode, resolved], ready⟩
      | some found =>
          obtain ⟨e, a⟩ := found
          obtain ⟨inside, held, same⟩ := resolve?_eq_some resolved
          have has : setting.registry.Has a := ⟨e, known e inside, List.mem_of_find?_eq_some held⟩
          -- The attribute of the entity need not be that of the node, but it leads to the same target.
          have alike := Attribute.isAssociation_eq_of_target (unambiguous a item.subject has own.subject same)
          cases aggregated : item.aggregate with
          | some operation =>
              have kind : a.isAssociation = true := alike.trans (own.aggregate (by rw [aggregated]; rfl))
              obtain ⟨target, -, leads⟩ := registered.exists_targetOf has kind
              obtain ⟨last, walked, same⟩ :=
                walkAggregate_exists leads item operation e table (Path.child above a.property) state
              exact ⟨last, by simp only [walkNode, resolved, aggregated, walked], same ▸ ready⟩
          | none =>
              cases collection : a.isCollection with
              | true =>
                  have kind := Attribute.isAssociation_of_isCollection collection
                  refine ⟨walkCollection children a e table above (Path.child above a.property) state, ?_,
                    ready.defer ⟨has, kind, below⟩⟩
                  simp only [walkNode, resolved, aggregated, collection, if_true]
              | false =>
                  cases kind : a.isAssociation with
                  | true =>
                      obtain ⟨target, isKnown, leads⟩ := registered.exists_targetOf has kind
                      have walks : Walks setting target children := fun _ _ _ between =>
                        walk_exists registered unambiguous children (List.forall_mem_singleton.mpr isKnown) below between
                      exact walkAssociation_exists resolved aggregated collection kind leads walks table above ready
                  | false =>
                      refine ⟨walkColumn item a table (Path.child above a.property) state, ?_,
                        fun d member => ready d (walkColumn_plan.2 ▸ member)⟩
                      simp only [walkNode, resolved, aggregated, collection, kind, Bool.false_eq_true, if_false]

end

theorem walks_of_sound (registered : setting.registry.IsRegistered) (unambiguous : setting.registry.IsUnambiguous)
    (known : target ∈ setting.registry.all) (sound : ∀ n ∈ nodes, n.IsSound setting.registry) :
    Walks setting target nodes :=
  fun _ _ _ ready =>
    walk_exists registered unambiguous nodes (List.forall_mem_singleton.mpr known) sound ready

end Walks

theorem subSelect_exists (registered : setting.registry.IsRegistered) (unambiguous : setting.registry.IsUnambiguous)
    (r : Root) (plan : JoinPlan) (next : Nat) (sound : c.IsSound setting.registry)
    (others : AreSound setting.registry deferred) :
    ∃ s after following later, subSelect setting r c plan next deferred = .ok (s, after, following, later) ∧
      AreSound setting.registry later := by
  obtain ⟨target, known, found⟩ := registered.exists_targetOf sound.subject sound.association
  obtain ⟨reached, table, joins⟩ := join_exists found
    ⟨c.enclosing.foldl (fun s outer => s.projectIdentity outer.entity outer.table outer.path) (r.chained c plan),
      plan, next, deferred⟩ c.path c.sourceEntity c.sourceTable
  have between : AreSound setting.registry reached.deferred := join_deferred joins ▸ others
  obtain ⟨last, walked, after⟩ : ∃ last, walkOrAll setting target table c.path c.nodes
      (reached.mapScope fun s => { s with enclosing := s.enclosing ++ [⟨c.path, target, table⟩] }) = .ok last ∧
      AreSound setting.registry last.deferred :=
    walkOrAll_exists (walks_of_sound registered unambiguous known sound.nodes) table c.path between
  unfold subSelect
  unfold Root.chained at joins
  simp only [found, joins, walked, bind, Except.bind]
  exact ⟨_, _, _, _, rfl, after⟩

theorem subSelects_exist (registered : setting.registry.IsRegistered) (unambiguous : setting.registry.IsUnambiguous)
    (r : Root) (plan : JoinPlan) (next : Nat) (sound : AreSound setting.registry collections)
    (others : AreSound setting.registry deferred) :
    ∃ found after following later,
      subSelects setting r collections plan next deferred = .ok (found, after, following, later) ∧
      AreSound setting.registry later := by
  induction collections generalizing plan next deferred with
  | nil => exact ⟨[], plan, next, deferred, rfl, others⟩
  | cons c rest ih =>
      obtain ⟨first, middle, number, between, made, putDown⟩ :=
        subSelect_exists registered unambiguous r plan next (sound c (List.mem_cons_self ..)) others
      obtain ⟨found, after, following, later, allMade, allPutDown⟩ :=
        ih middle number (fun d member => sound d (List.mem_cons_of_mem _ member)) putDown
      refine ⟨first :: found, after, following, later, ?_, allPutDown⟩
      simp only [subSelects, made, allMade, bind, Except.bind]
      rfl

theorem rounds_exist (setting : Setting) (registered : setting.registry.IsRegistered)
    (unambiguous : setting.registry.IsUnambiguous) (r : Root) (levels : Nat) (plan : JoinPlan) (next : Nat)
    (sound : AreSound setting.registry deferred) :
    ∃ found after, rounds setting r levels deferred plan next = .ok (found, after) := by
  induction levels generalizing plan next deferred with
  | zero => exact ⟨[], plan, rfl⟩
  | succ levels ih =>
      unfold rounds
      split
      · exact ⟨[], plan, rfl⟩
      · obtain ⟨first, middle, number, between, made, putDown⟩ :=
          subSelects_exist registered unambiguous r plan next sound (List.forall_mem_nil _)
        obtain ⟨found, after, allMade⟩ := ih middle number putDown
        refine ⟨first ++ found, after, ?_⟩
        simp only [made, allMade, bind, Except.bind]
        rfl

theorem primary_exists (setting : Setting) (registered : setting.registry.IsRegistered)
    (unambiguous : setting.registry.IsUnambiguous) (r : Root) (sound : t.IsSound setting.registry) :
    ∃ last, primary setting r t = .ok last ∧ AreSound setting.registry last.deferred := by
  obtain ⟨last, walked, after⟩ : ∃ last, walk setting t.roots 0 "" t.nodes
      ⟨if t.nodes.isEmpty then (r.start []).projectColumns r.root.scalars 0 "" else r.start [], {}, 1, []⟩ = .ok last ∧
      AreSound setting.registry last.deferred :=
    walk_exists registered unambiguous t.nodes sound.roots (fun n member => (sound.nodes n member).2)
      (List.forall_mem_nil _)
  unfold primary
  simp only [walked, bind, Except.bind]
  exact ⟨_, rfl, after⟩

end Compile

variable {registry : Registry} {t : FilterTree}

theorem compile_exists (registered : registry.IsRegistered) (unambiguous : registry.IsUnambiguous)
    (sound : t.IsSound registry) (settings : ViewSettings) (dialect : Dialect) (pointInTime : Option Timestamp)
    (page : Page) : ∃ v, compile registry settings dialect pointInTime page t = .ok v := by
  obtain ⟨first, made, putDown⟩ :=
    primary_exists ⟨registry, pointInTime⟩ registered unambiguous (Root.ofTree settings t) sound
  obtain ⟨found, plan, allMade⟩ := rounds_exist ⟨registry, pointInTime⟩ registered unambiguous (Root.ofTree settings t)
    (FilterNode.depthOfAll t.nodes + 1) first.plan first.nextTable putDown
  unfold Root.ofTree at made allMade
  simp only [compile, made, allMade, bind, Except.bind]
  exact ⟨_, rfl⟩

/-- Every tree that is made over a registry is sound and can be compiled, in as many rounds as are needed, as long as
attributes of one identity lead to one entity. So they do where no entity is declared twice. -/
theorem made_trees_are_compiled {definitions : List EntityDefinition}
    (accepted : Registry.ofDefinitions definitions = .ok registry) :
    ((definitions.map (·.name)).Nodup → registry.IsUnambiguous) ∧
      (registry.IsUnambiguous → ∀ t : FilterTree, t.IsMade registry → t.IsSound registry ∧
        ∀ settings dialect pointInTime page, ∃ v, compile registry settings dialect pointInTime page t = .ok v ∧
          ∃ state, Compile.primary ⟨registry, pointInTime⟩ (.ofTree settings t) t = .ok state ∧
            RunsOut ⟨registry, pointInTime⟩ (.ofTree settings t) state.deferred state.plan state.nextTable
              (.ok (v.subSelects, v.joinPlan))) := by
  refine ⟨Registry.isUnambiguous_of_distinct accepted, fun unambiguous t made => ?_⟩
  have sound := made.isSound unambiguous
  refine ⟨sound, fun settings dialect pointInTime page => ?_⟩
  obtain ⟨v, compiled⟩ := compile_exists (Registry.isRegistered_of_definitions accepted) unambiguous sound settings
    dialect pointInTime page
  exact ⟨v, compiled, compile_runsOut compiled⟩

theorem definitions_are_compiled {definitions : List EntityDefinition}
    (accepted : Registry.ofDefinitions definitions = .ok registry) (distinct : (definitions.map (·.name)).Nodup)
    {d : ViewDefinition} (read : d.tree registry = .ok t) (settings : ViewSettings) (dialect : Dialect)
    (pointInTime : Option Timestamp) : ∃ v, compile registry settings dialect pointInTime d.page t = .ok v := by
  have unambiguous := Registry.isUnambiguous_of_distinct accepted distinct
  have sound := (FilterTree.IsMade.of_definition read).isSound unambiguous
  exact compile_exists (Registry.isRegistered_of_definitions accepted) unambiguous sound settings dialect pointInTime _

namespace Outline

def numbered? (registry : Registry) : Option FilterTree := do
  let start ← (FilterTree.ofNames registry ["Order"]).toOption
  let named ← (Predicate.of .equals (.text "A")).toOption
  let t := (start.addPath registry "lines.product" (some named)).1
  let t := (t.addPath registry "customer.name" (some named)).1
  return (t.decorate [0] (some .count) (some "size") none).1

theorem numbered_isMade {registry : Registry} {t : FilterTree} (made : numbered? registry = some t) :
    t.IsMade registry := by
  obtain ⟨start, found, made⟩ := Option.bind_eq_some_iff.mp made
  obtain ⟨named, isNamed, made⟩ := Option.bind_eq_some_iff.mp made
  cases made
  have tests : ∀ p, some named = some p → p.IsMade := by
    rintro _ ⟨⟩
    exact .of (eq_ok_of_toOption isNamed)
  have start := FilterTree.IsMade.ofNames (eq_ok_of_toOption found)
  exact ((start.addPath _ _ tests).addPath _ _ tests).decorate _ _ _ _

set_option maxRecDepth 100000 in
theorem orders_are_numbered : ∃ registry t, Registry.ofDefinitions orders.definitions = .ok registry ∧
    (orders.definitions.map (·.name)).Nodup ∧ numbered? registry = some t ∧ t.IsMade registry ∧
    t.nodes.map (fun n => (n.item.subject.property, n.children.length)) = [("lines", 0), ("customer", 1)] ∧
    t.IsSound registry ∧
    ∀ settings dialect pointInTime page, ∃ v, compile registry settings dialect pointInTime page t = .ok v ∧
      ∃ state, Compile.primary ⟨registry, pointInTime⟩ (.ofTree settings t) t = .ok state ∧
        RunsOut ⟨registry, pointInTime⟩ (.ofTree settings t) state.deferred state.plan state.nextTable
          (.ok (v.subSelects, v.joinPlan)) := by
  have checked : ((Registry.ofDefinitions orders.definitions).toOption.any fun registry =>
      (numbered? registry).any fun t =>
        t.nodes.map (fun n => (n.item.subject.property, n.children.length)) == [("lines", 0), ("customer", 1)]) =
      true := by
    decide +kernel
  obtain ⟨registry, read, checked⟩ := (Option.any_eq_true _ _).mp checked
  obtain ⟨t, found, shape⟩ := (Option.any_eq_true _ _).mp checked
  have accepted := eq_ok_of_toOption read
  have distinct : (orders.definitions.map (·.name)).Nodup := by decide
  have made := numbered_isMade found
  obtain ⟨sound, compiled⟩ :=
    (made_trees_are_compiled accepted).2 ((made_trees_are_compiled accepted).1 distinct) t made
  exact ⟨registry, t, accepted, distinct, found, made, beq_iff_eq.mp shape, sound, compiled⟩

def redeclared : List EntityDefinition := [
  entity "Item" "item" [column "id" "id" .bigInt true, column "owner" "owner" .varchar false],
  ⟨"Book", none, some "Item", none, none, []⟩,
  entity "Item" "item" [column "id" "id" .bigInt true, association "owner" "Person" "person" "id" "id" false],
  entity "Person" "person" [column "id" "id" .bigInt true]]

def owned? (registry : Registry) : Option FilterTree := do
  let item ← (registry.entity "Item").toOption
  let owner ← (← (registry.entity "Book").toOption).property? "owner"
  let given ← (Predicate.unary .isNotNull).toOption
  let start ← (FilterTree.ofRoots [item]).toOption
  let t ← (start.add (← (FilterNode.leaf owner given).toOption)).toOption
  return (t.addPath registry "owner.id" none).1

def counted? (registry : Registry) : Option FilterTree := do
  let owner ← (← (registry.entity "Item").toOption).property? "owner"
  let start ← (FilterTree.ofRoots [← (registry.entity "Book").toOption]).toOption
  (start.add (← (FilterNode.aggregate owner .count).toOption)).toOption

theorem owned_isMade {registry : Registry} {t : FilterTree} (made : owned? registry = some t) : t.IsMade registry := by
  obtain ⟨item, isItem, made⟩ := Option.bind_eq_some_iff.mp made
  obtain ⟨book, isBook, made⟩ := Option.bind_eq_some_iff.mp made
  obtain ⟨owner, isOwner, made⟩ := Option.bind_eq_some_iff.mp made
  obtain ⟨given, isGiven, made⟩ := Option.bind_eq_some_iff.mp made
  obtain ⟨start, started, made⟩ := Option.bind_eq_some_iff.mp made
  obtain ⟨n, isLeaf, made⟩ := Option.bind_eq_some_iff.mp made
  obtain ⟨t, added, made⟩ := Option.bind_eq_some_iff.mp made
  cases made
  have has : registry.Has owner :=
    ⟨book, Registry.mem_all_of_entity (eq_ok_of_toOption isBook), List.mem_of_find?_eq_some isOwner⟩
  have start : start.IsMade registry := .ofRoots
    (List.forall_mem_singleton.mpr (Registry.mem_all_of_entity (eq_ok_of_toOption isItem))) (eq_ok_of_toOption started)
  have leaf : n.IsMade registry := .leaf has (.unary (eq_ok_of_toOption isGiven)) (eq_ok_of_toOption isLeaf)
  exact (start.add leaf (eq_ok_of_toOption added)).addPath _ _ (by simp)

theorem counted_isMade {registry : Registry} {t : FilterTree} (made : counted? registry = some t) :
    t.IsMade registry := by
  obtain ⟨item, isItem, made⟩ := Option.bind_eq_some_iff.mp made
  obtain ⟨owner, isOwner, made⟩ := Option.bind_eq_some_iff.mp made
  obtain ⟨book, isBook, made⟩ := Option.bind_eq_some_iff.mp made
  obtain ⟨start, started, made⟩ := Option.bind_eq_some_iff.mp made
  obtain ⟨n, isCounted, added⟩ := Option.bind_eq_some_iff.mp made
  have has : registry.Has owner :=
    ⟨item, Registry.mem_all_of_entity (eq_ok_of_toOption isItem), List.mem_of_find?_eq_some isOwner⟩
  have start : start.IsMade registry := .ofRoots
    (List.forall_mem_singleton.mpr (Registry.mem_all_of_entity (eq_ok_of_toOption isBook))) (eq_ok_of_toOption started)
  exact start.add (.aggregate has (eq_ok_of_toOption isCounted)) (eq_ok_of_toOption added)

set_option maxRecDepth 100000 in
/-- Where an entity is declared twice, a node for a column may get children, and an aggregate of what is a column for
the root cannot be compiled. -/
theorem redeclared_owners_are_confused : ∃ registry, Registry.ofDefinitions redeclared = .ok registry ∧
    (∃ t, owned? registry = some t ∧ t.IsMade registry ∧
      ∃ n ∈ t.nodes, n.item.subject.isAssociation = false ∧ n.children ≠ [] ∧ ¬ n.IsSound registry) ∧
    ∃ t, counted? registry = some t ∧ t.IsMade registry ∧ ∀ v, compile registry {} .sqlite none {} t ≠ .ok v := by
  have checked : ((Registry.ofDefinitions redeclared).toOption.any fun registry =>
      ((owned? registry).any fun t => t.nodes.any fun n => !n.item.subject.isAssociation && !n.children.isEmpty) &&
      (counted? registry).any fun t => (compile registry {} .sqlite none {} t).toOption.isNone) = true := by
    decide +kernel
  obtain ⟨registry, read, checked⟩ := (Option.any_eq_true _ _).mp checked
  obtain ⟨first, second⟩ := Bool.and_eq_true_iff.mp checked
  obtain ⟨t, isOwned, first⟩ := (Option.any_eq_true _ _).mp first
  obtain ⟨n, member, shape⟩ := List.any_eq_true.mp first
  obtain ⟨other, isCounted, fails⟩ := (Option.any_eq_true _ _).mp second
  simp only [Bool.and_eq_true, Bool.not_eq_true', List.isEmpty_eq_false_iff] at shape
  refine ⟨registry, eq_ok_of_toOption read,
    ⟨t, isOwned, owned_isMade isOwned, n, member, shape.1, shape.2, fun sound => ?_⟩,
    other, isCounted, counted_isMade isCounted, fun v compiled => ?_⟩
  · obtain ⟨child, inside⟩ := List.exists_mem_of_ne_nil _ shape.2
    obtain ⟨target, leads⟩ := sound.exists_target inside
    exact Bool.false_ne_true (shape.1.symm.trans (Registry.isAssociation_of_targetOf leads))
  · rw [compiled] at fails
    contradiction

end Outline

end ViewEngine
