import ViewEngine.Filter.Definition
import ViewEngine.Proofs.Requests.Ways
import ViewEngine.Proofs.Schema.Identities

/-!
The trees that can be made over a registry. Nodes are made of attributes and of one another, they are added to a tree
or come into it with a path, and they are changed where they stand. What is refused leaves them as they are, but for
the nodes on the way of a path.
-/

namespace ViewEngine

/-- A predicate as its constructors make it. -/
inductive Predicate.IsMade : Predicate → Prop
  | of {operator : FilterOperator} {value : Value} {p : Predicate} (accepted : of operator value = .ok p) : IsMade p
  | unary {operator : FilterOperator} {p : Predicate} (accepted : unary operator = .ok p) : IsMade p
  | between {low high : Value} {p : Predicate} (accepted : between low high = .ok p) : IsMade p

inductive FilterItem.Becomes (item : FilterItem) : FilterItem → Prop
  | refl : Becomes item item
  | aggregate {middle after : FilterItem} {aggregate : Aggregate} (becomes : Becomes item middle)
      (accepted : middle.setAggregate aggregate = .ok after) : Becomes item after
  | outputName {middle : FilterItem} (becomes : Becomes item middle) (outputName : Option String) :
      Becomes item { middle with outputName }
  | sort {middle : FilterItem} (becomes : Becomes item middle) (sortAscending : Option Bool) :
      Becomes item { middle with sortAscending }

namespace FilterNode

/-- A node that is made of attributes of a registry. -/
inductive IsMade (registry : Registry) : FilterNode → Prop
  | project {a : Attribute} (has : registry.Has a) : IsMade registry (project a)
  | leaf {a : Attribute} {p : Predicate} {n : FilterNode} (has : registry.Has a) (made : p.IsMade)
      (accepted : leaf a p = .ok n) : IsMade registry n
  | aggregate {a : Attribute} {operation : Aggregate} {n : FilterNode} (has : registry.Has a)
      (accepted : aggregate a operation = .ok n) : IsMade registry n
  | change {n : FilterNode} {item : FilterItem} (made : IsMade registry n) (becomes : n.item.Becomes item) :
      IsMade registry { n with item }
  | addChild {n child after : FilterNode} (made : IsMade registry n) (below : IsMade registry child)
      (accepted : addChild registry n child = .ok after) : IsMade registry after

inductive Changes (registry : Registry) : List FilterNode → List FilterNode → Prop
  | change {before rest : List FilterNode} {n : FilterNode} {item : FilterItem} (becomes : n.item.Becomes item) :
      Changes registry (before ++ n :: rest) (before ++ { n with item } :: rest)
  | addChild {before rest : List FilterNode} {n child after : FilterNode} (made : child.IsMade registry)
      (accepted : addChild registry n child = .ok after) :
      Changes registry (before ++ n :: rest) (before ++ after :: rest)
  | inside {before rest children : List FilterNode} {n : FilterNode} (changes : Changes registry n.children children) :
      Changes registry (before ++ n :: rest) (before ++ { n with children } :: rest)

end FilterNode

/-- A tree that is made over entities of a registry. -/
inductive FilterTree.IsMade (registry : Registry) : FilterTree → Prop
  | ofRoots {roots : List Entity} {t : FilterTree} (known : ∀ e ∈ roots, e ∈ registry.all)
      (accepted : ofRoots roots = .ok t) : IsMade registry t
  | add {t after : FilterTree} {n : FilterNode} (made : IsMade registry t) (node : n.IsMade registry)
      (accepted : t.add n = .ok after) : IsMade registry after
  | addPath {t : FilterTree} (made : IsMade registry t) (path : String) (predicate : Option Predicate)
      (tests : ∀ p, predicate = some p → p.IsMade) : IsMade registry (t.addPath registry path predicate).1
  | change {t : FilterTree} {nodes : List FilterNode} (made : IsMade registry t)
      (changes : FilterNode.Changes registry t.nodes nodes) : IsMade registry { t with nodes }

/-- What a node says of its attribute fits that. -/
structure FilterItem.IsSound (registry : Registry) (item : FilterItem) : Prop where
  subject : registry.Has item.subject
  aggregate : item.aggregate.isSome = true → item.subject.isAssociation = true
  predicate : ∀ p, item.predicate = some p →
    item.subject.isAssociation = false ∧ p.supplied? = some p.operator.arity

/-- Each node says what fits its attribute. Those below it, if there are any, ask for attributes of the entity that its
association leads to. -/
inductive FilterNode.IsSound (registry : Registry) : FilterNode → Prop
  | node {item : FilterItem} {children : List FilterNode} (own : item.IsSound registry)
      (belongs : ∀ n ∈ children, ∃ target, registry.targetOf item.subject = .ok target ∧ target.carries n.id = true)
      (below : ∀ n ∈ children, IsSound registry n) : IsSound registry ⟨item, children⟩

def FilterNode.AreSound (registry : Registry) (entities : List Entity) (nodes : List FilterNode) : Prop :=
  ∀ n ∈ nodes, (∃ e ∈ entities, e.carries n.id = true) ∧ n.IsSound registry

structure FilterTree.IsSound (registry : Registry) (t : FilterTree) : Prop where
  roots : ∀ e ∈ t.roots, e ∈ registry.all
  nodes : FilterNode.AreSound registry t.roots t.nodes

variable {registry : Registry} {e target last : Entity} {entities : List Entity} {a : Attribute} {p : Predicate}
  {way : List Attribute} {predicate : Option Predicate} {item after : FilterItem} {n child : FilterNode}
  {before rest nodes others children : List FilterNode}

theorem Entity.carries_of_mem (member : a ∈ e.attributes) : e.carries a.id = true :=
  List.any_eq_true.mpr ⟨a, member, beq_self_eq_true _⟩

theorem Predicate.IsMade.supplied? (made : p.IsMade) : p.supplied? = some p.operator.arity := by
  have of_checked {given : Predicate} (accepted : given.checked = .ok p) : p.supplied? = some p.operator.arity := by
    unfold checked at accepted
    split at accepted
    · contradiction
    next supplied counted =>
      split at accepted
      · contradiction
      next same =>
        split at accepted
        · contradiction
        · cases accepted
          rw [counted, not_not.mp same]
  cases made with
  | of accepted => exact of_checked accepted
  | unary accepted => exact of_checked accepted
  | between accepted => exact of_checked accepted

theorem FilterDefinition.predicate_isMade (d : FilterDefinition) (accepted : d.predicate = .ok predicate) :
    ∀ p, predicate = some p → p.IsMade := by
  unfold FilterDefinition.predicate at accepted
  split at accepted
  · cases accepted
    simp
  · obtain ⟨made, found, rfl⟩ := map_eq_ok.mp accepted
    rintro p ⟨⟩
    split at found
    · exact .unary found
    · exact .between found
    · contradiction
    · exact .of found

namespace FilterItem

theorem setAggregate_eq_ok {operation : Aggregate} (accepted : item.setAggregate operation = .ok after) :
    item.subject.isAssociation = true ∧ after = { item with aggregate := some operation } := by
  unfold setAggregate at accepted
  split at accepted
  next isAssociation =>
    cases accepted
    exact ⟨isAssociation, rfl⟩
  next => contradiction

theorem Becomes.subject (becomes : item.Becomes after) : after.subject = item.subject := by
  induction becomes with
  | refl => rfl
  | aggregate _ accepted ih => rw [(setAggregate_eq_ok accepted).2, ← ih]
  | outputName _ _ ih => exact ih
  | sort _ _ ih => exact ih

theorem Becomes.isSound (becomes : item.Becomes after) (sound : item.IsSound registry) : after.IsSound registry := by
  induction becomes with
  | refl => exact sound
  | aggregate _ accepted ih =>
      obtain ⟨isAssociation, rfl⟩ := setAggregate_eq_ok accepted
      exact ⟨ih.subject, fun _ => isAssociation, ih.predicate⟩
  | outputName _ _ ih => exact ⟨ih.subject, ih.aggregate, ih.predicate⟩
  | sort _ _ ih => exact ⟨ih.subject, ih.aggregate, ih.predicate⟩

end FilterItem

namespace FilterNode

theorem exists_of_modify {position : Nat} (found : nodes[position]? = some n) (change : FilterNode → FilterNode) :
    ∃ before rest, nodes = before ++ n :: rest ∧ nodes.modify position change = before ++ change n :: rest := by
  obtain ⟨bound, rfl⟩ := List.getElem?_eq_some_iff.mp found
  refine ⟨nodes.take position, nodes.drop (position + 1), ?_, List.modify_eq_take_cons_drop bound⟩
  rw [List.getElem_cons_drop, List.take_append_drop]

theorem leaf_eq_ok (accepted : leaf a p = .ok n) :
    a.isAssociation = false ∧ n = ⟨{ subject := a, predicate := some p }, []⟩ := by
  unfold leaf at accepted
  split at accepted
  · contradiction
  next isColumn =>
    cases accepted
    exact ⟨Bool.not_eq_true _ ▸ isColumn, rfl⟩

theorem addChild_eq_ok {after : FilterNode} (accepted : addChild registry n child = .ok after) :
    ∃ target, registry.targetOf n.item.subject = .ok target ∧ target.carries child.id = true ∧
      after = { n with children := n.children ++ [child] } := by
  unfold addChild at accepted
  split at accepted
  · contradiction
  · split at accepted
    · contradiction
    next target found =>
      split at accepted
      next carried =>
        cases accepted
        exact ⟨target, found, carried, rfl⟩
      next => contradiction

theorem modifyAt_changes (registry : Registry) {change : FilterItem → FilterItem} {address : List Nat}
    (becomes : ∀ item, itemAt? address nodes = some item → item.Becomes (change item)) :
    modifyAt change address nodes = nodes ∨ Changes registry nodes (modifyAt change address nodes) := by
  induction address generalizing nodes with
  | nil => exact .inl rfl
  | cons position below ih =>
      cases there : nodes[position]? with
      | none =>
          have outside : nodes.length ≤ position := List.getElem?_eq_none_iff.mp there
          cases below <;> exact .inl (List.modify_eq_self outside)
      | some n =>
          cases below with
          | nil =>
              obtain ⟨before, rest, rfl, modified⟩ := exists_of_modify there fun n => { n with item := change n.item }
              rw [modifyAt, modified]
              refine .inr (.change (becomes n.item ?_))
              rw [itemAt?, there, Option.map_some]
          | cons next further =>
              obtain ⟨before, rest, rfl, modified⟩ := exists_of_modify there fun n =>
                { n with children := modifyAt change (next :: further) n.children }
              have deeper : ∀ item, itemAt? (next :: further) n.children = some item → item.Becomes (change item) := by
                intro item found
                exact becomes item (by simp only [itemAt?, there, Option.bind_some, found])
              simp only [modifyAt, modified]
              rcases ih deeper with same | changes
              · rw [same]
                cases n
                exact .inl rfl
              · exact .inr (.inside changes)

theorem Changes.exists_mem (changes : Changes registry nodes others) : ∃ n, n ∈ nodes := by
  cases changes <;> exact ⟨_, List.mem_append_right _ (List.mem_cons_self ..)⟩

namespace IsSound

theorem own (sound : n.IsSound registry) : n.item.IsSound registry := by
  cases sound
  assumption

theorem exists_target (sound : n.IsSound registry) (member : child ∈ n.children) :
    ∃ target, registry.targetOf n.item.subject = .ok target := by
  obtain ⟨-, belongs, -⟩ := sound
  obtain ⟨target, found, -⟩ := belongs child member
  exact ⟨target, found⟩

theorem children_sound (sound : n.IsSound registry) (found : registry.targetOf n.item.subject = .ok target) :
    AreSound registry [target] n.children := by
  obtain ⟨-, belongs, below⟩ := sound
  intro child member
  obtain ⟨other, leads, carried⟩ := belongs child member
  cases found.symm.trans leads
  exact ⟨⟨_, List.mem_singleton_self _, carried⟩, below child member⟩

theorem of_children (own : item.IsSound registry) (found : registry.targetOf item.subject = .ok target)
    (below : AreSound registry [target] children) : IsSound registry ⟨item, children⟩ := by
  refine .node own (fun n member => ?_) fun n member => (below n member).2
  obtain ⟨e, only, carried⟩ := (below n member).1
  exact ⟨target, found, List.mem_singleton.mp only ▸ carried⟩

theorem of_leaf (own : item.IsSound registry) : IsSound registry ⟨item, []⟩ :=
  .node own (by simp) (by simp)

theorem project (has : registry.Has a) : (project a).IsSound registry :=
  of_leaf ⟨has, by simp, by simp⟩

theorem leaf (has : registry.Has a) (made : p.IsMade) (accepted : leaf a p = .ok n) : n.IsSound registry := by
  obtain ⟨isColumn, rfl⟩ := leaf_eq_ok accepted
  refine of_leaf ⟨has, by simp, ?_⟩
  rintro _ ⟨⟩
  exact ⟨isColumn, made.supplied?⟩

theorem change (sound : n.IsSound registry) (becomes : n.item.Becomes item) :
    IsSound registry { n with item } := by
  obtain ⟨own, belongs, below⟩ := sound
  exact .node (becomes.isSound own) (becomes.subject ▸ belongs) below

theorem addChild {after : FilterNode} (sound : n.IsSound registry) (added : child.IsSound registry)
    (accepted : addChild registry n child = .ok after) : after.IsSound registry := by
  obtain ⟨target, found, carried, rfl⟩ := addChild_eq_ok accepted
  refine of_children sound.own found fun m member => ?_
  rcases List.mem_append.mp member with old | new
  · exact sound.children_sound found m old
  · cases List.mem_singleton.mp new
    exact ⟨⟨target, List.mem_singleton_self _, carried⟩, added⟩

end IsSound

theorem IsMade.isSound (made : n.IsMade registry) : n.IsSound registry := by
  induction made with
  | project has => exact .project has
  | leaf has made accepted => exact .leaf has made accepted
  | @aggregate a operation n has accepted =>
      obtain ⟨item, aggregated, accepted⟩ := bind_eq_ok.mp accepted
      cases accepted
      obtain ⟨isAssociation, rfl⟩ := FilterItem.setAggregate_eq_ok aggregated
      exact .of_leaf ⟨has, fun _ => isAssociation, by simp⟩
  | change _ becomes ih => exact ih.change becomes
  | addChild _ _ accepted ih below => exact ih.addChild below accepted

namespace AreSound

theorem concat (sound : AreSound registry entities nodes) (known : e ∈ entities) (carried : e.carries n.id = true)
    (added : n.IsSound registry) : AreSound registry entities (nodes ++ [n]) := by
  intro m member
  rcases List.mem_append.mp member with old | new
  · exact sound m old
  · cases List.mem_singleton.mp new
    exact ⟨⟨e, known, carried⟩, added⟩

theorem replace {other : FilterNode} (sound : AreSound registry entities (before ++ n :: rest)) (same : other.id = n.id)
    (replaced : n.IsSound registry → other.IsSound registry) :
    AreSound registry entities (before ++ other :: rest) := by
  intro m member
  rcases List.mem_append.mp member with early | later
  · exact sound m (List.mem_append_left _ early)
  · rcases List.mem_cons.mp later with rfl | last
    · have stood := sound n (List.mem_append_right _ (List.mem_cons_self ..))
      exact ⟨same ▸ stood.1, replaced stood.2⟩
    · exact sound m (List.mem_append_right _ (List.mem_cons_of_mem _ last))

theorem modify {position : Nat} {change : FilterNode → FilterNode} (sound : AreSound registry entities nodes)
    (found : nodes[position]? = some n) (same : (change n).id = n.id)
    (changed : n.IsSound registry → (change n).IsSound registry) :
    AreSound registry entities (nodes.modify position change) := by
  obtain ⟨before, rest, rfl, modified⟩ := exists_of_modify found change
  exact modified ▸ sound.replace same changed

theorem placeLast {outcome : Except CompositionError (List Nat)} (sound : AreSound registry entities nodes)
    (known : e ∈ entities) (member : a ∈ e.attributes) (has : registry.Has a)
    (tests : ∀ p, predicate = some p → p.IsMade) (placed : placeLast a predicate nodes = (others, outcome)) :
    AreSound registry entities others := by
  cases predicate with
  | some p =>
      unfold FilterNode.placeLast at placed
      dsimp only at placed
      split at placed
      next n accepted =>
        cases placed
        have same : n.id = a.id := by rw [(leaf_eq_ok accepted).2, FilterNode.id]
        exact sound.concat known (same ▸ Entity.carries_of_mem member) (.leaf has (tests p rfl) accepted)
      next =>
        cases placed
        exact sound
  | none =>
      unfold FilterNode.placeLast at placed
      dsimp only at placed
      split at placed
      · cases placed
        exact sound
      · cases placed
        exact sound.concat known (Entity.carries_of_mem member) (.project has)

/-- The nodes along a way are for the associations on it, those that are found as well as those that are new. -/
theorem placeAlong {outcome : Except CompositionError (List Nat)} (unambiguous : registry.IsUnambiguous)
    (all : ∀ e ∈ entities, e ∈ registry.all)
    (follows : registry.Follows e way last) (known : e ∈ entities) (member : a ∈ last.attributes)
    (tests : ∀ p, predicate = some p → p.IsMade) (sound : AreSound registry entities nodes)
    (placed : placeAlong a predicate way nodes = (others, outcome)) : AreSound registry entities others := by
  induction follows generalizing nodes others outcome entities with
  | @nil e => exact sound.placeLast known member ⟨e, all e known, member⟩ tests placed
  | @cons e target last b way inside _ found follows ih =>
      have has : registry.Has b := ⟨e, all e known, inside⟩
      have only : ∀ e ∈ [target], e ∈ registry.all :=
        fun e member => List.mem_singleton.mp member ▸ Registry.IsRegistered.mem_of_targetOf found
      have first : target ∈ [target] := List.mem_singleton_self _
      unfold FilterNode.placeAlong at placed
      dsimp only at placed
      split at placed
      next position there =>
        obtain ⟨bound, holds, -⟩ := List.findIdx?_eq_some_iff_getElem.mp there
        have same : nodes[position].id = b.id := beq_iff_eq.mp holds
        rw [List.getElem?_eq_getElem bound, Option.map_some, Option.getD_some, Prod.mk.injEq] at placed
        obtain ⟨rfl, -⟩ := placed
        have stands := (sound _ (List.getElem_mem bound)).2
        have leads : registry.targetOf nodes[position].item.subject = .ok target :=
          Registry.targetOf_congr (unambiguous b _ has stands.own.subject same.symm) found
        refine sound.modify (List.getElem?_eq_getElem bound) rfl fun _ => ?_
        exact .of_children stands.own leads (ih only first member (stands.children_sound leads) rfl)
      next absent =>
        rw [Prod.mk.injEq] at placed
        obtain ⟨rfl, -⟩ := placed
        have deeper := ih only first member (fun n member => absurd member List.not_mem_nil) rfl
        exact sound.concat known (Entity.carries_of_mem inside)
          (.of_children (IsSound.project has).own found deeper)

theorem changed (changes : Changes registry nodes others) (sound : AreSound registry entities nodes) :
    AreSound registry entities others := by
  induction changes generalizing entities with
  | change becomes => exact sound.replace (congrArg Attribute.id becomes.subject) fun stood => stood.change becomes
  | addChild made accepted =>
      obtain ⟨target, -, -, rfl⟩ := addChild_eq_ok accepted
      exact sound.replace rfl fun stood => stood.addChild made.isSound accepted
  | @inside before rest children n changes ih =>
      refine sound.replace rfl fun stood => ?_
      obtain ⟨child, member⟩ := changes.exists_mem
      obtain ⟨target, found⟩ := stood.exists_target member
      exact .of_children stood.own found (ih (stood.children_sound found))

end AreSound

end FilterNode

namespace FilterTree

variable {t after : FilterTree} {roots : List Entity}

theorem ofRoots_eq_ok (accepted : ofRoots roots = .ok t) : t.roots = roots ∧ t.nodes = [] := by
  unfold ofRoots at accepted
  split at accepted
  · contradiction
  · split at accepted
    · contradiction
    · cases accepted
      exact ⟨rfl, rfl⟩

theorem add_eq_ok (accepted : t.add n = .ok after) :
    (∃ e ∈ t.roots, e.carries n.id = true) ∧ after = { t with nodes := t.nodes ++ [n] } := by
  unfold add at accepted
  split at accepted
  next carried =>
    cases accepted
    exact ⟨List.any_eq_true.mp carried, rfl⟩
  next => contradiction

/-- What is asked for at a path is put below nodes that lead there, be it accepted or refused in the end. -/
theorem IsSound.addPath (unambiguous : registry.IsUnambiguous) (sound : t.IsSound registry) (path : String)
    (tests : ∀ p, predicate = some p → p.IsMade) : (t.addPath registry path predicate).1.IsSound registry := by
  unfold FilterTree.addPath
  split
  next => exact sound
  next way a found =>
    obtain ⟨e, known, last, follows, member, -⟩ := exists_follows_of_resolve found
    exact ⟨sound.roots, .placeAlong unambiguous sound.roots follows known member tests sound.nodes rfl⟩

/-- Whatever is done with a tree, its nodes fit their attributes and stand where these are known. -/
theorem IsMade.isSound (unambiguous : registry.IsUnambiguous) (made : t.IsMade registry) : t.IsSound registry := by
  induction made with
  | ofRoots known accepted =>
      obtain ⟨rfl, empty⟩ := ofRoots_eq_ok accepted
      exact ⟨known, fun n member => absurd (empty ▸ member) List.not_mem_nil⟩
  | add _ node accepted ih =>
      obtain ⟨⟨e, known, carried⟩, rfl⟩ := add_eq_ok accepted
      exact ⟨ih.roots, ih.nodes.concat known carried node.isSound⟩
  | addPath _ path predicate tests ih => exact ih.addPath unambiguous path tests
  | change _ changes ih => exact ⟨ih.roots, ih.nodes.changed changes⟩

theorem IsMade.ofNames {names : List String} (accepted : ofNames registry names = .ok t) : t.IsMade registry := by
  obtain ⟨roots, found, accepted⟩ := bind_eq_ok.mp accepted
  refine .ofRoots (fun e member => ?_) accepted
  obtain ⟨name, -, named⟩ := exists_of_mem_mapM found member
  exact Registry.mem_all_of_entity named

theorem IsMade.modify (made : t.IsMade registry) {address : List Nat} {change : FilterItem → FilterItem}
    (becomes : ∀ item, t.item? address = some item → item.Becomes (change item)) :
    (t.modify address change).IsMade registry := by
  rcases FilterNode.modifyAt_changes registry becomes with same | changes
  · rw [FilterTree.modify, same]
    exact made
  · exact .change made changes

/-- Setting what is given of the rest that a node says is a change of that node. -/
theorem IsMade.decorate (made : t.IsMade registry) (address : List Nat) (operation : Option Aggregate)
    (outputName : Option String) (sortAscending : Option Bool) :
    (t.decorate address operation outputName sortAscending).1.IsMade registry := by
  unfold FilterTree.decorate
  dsimp only
  split
  next operation item found =>
    split
    next aggregated accepted =>
      refine made.modify fun other there => ?_
      cases found.symm.trans there
      have becomes := FilterItem.Becomes.aggregate .refl accepted
      exact (becomes.outputName (outputName.or _)).sort (sortAscending.or _)
    next => exact made
  next =>
    refine made.modify fun item _ => ?_
    exact (FilterItem.Becomes.refl.outputName (outputName.or _)).sort (sortAscending.or _)

theorem IsMade.addTo {d : FilterDefinition} (made : t.IsMade registry) (accepted : d.addTo registry t = .ok after) :
    after.IsMade registry := by
  obtain ⟨predicate, given, accepted⟩ := bind_eq_ok.mp accepted
  obtain ⟨address, -, accepted⟩ := bind_eq_ok.mp accepted
  obtain ⟨⟨⟩, -, accepted⟩ := bind_eq_ok.mp accepted
  cases accepted
  have tests := d.predicate_isMade (mapError_eq_ok.mp given)
  exact (made.addPath d.path predicate tests).decorate address d.aggregate d.outputName d.sortAscending

theorem IsMade.of_definition {d : ViewDefinition} (accepted : d.tree registry = .ok t) : t.IsMade registry := by
  obtain ⟨start, found, accepted⟩ := bind_eq_ok.mp accepted
  exact foldlM_keeps (fun _ _ _ made added => made.addTo added) (.ofNames (mapError_eq_ok.mp found)) accepted

end FilterTree

end ViewEngine
