import ViewEngine.Proofs.Outline
import ViewEngine.Proofs.Requests.Ways

namespace ViewEngine

/-- What a node asks for, behind the associations that lead to it. -/
structure Entry where
  way : List Attribute
  item : FilterItem

structure Test where
  way : List Attribute
  subject : Attribute
  predicate : Predicate

def Entry.test? (x : Entry) : Option Test :=
  x.item.predicate.map fun p => ⟨x.way, x.item.subject, p⟩

def Entry.collection? (x : Entry) : Option (List Attribute) :=
  if x.item.subject.isCollection then some (x.way ++ [x.item.subject]) else none

namespace FilterNode

mutual

def entries (way : List Attribute) : FilterNode → List Entry
  | ⟨item, children⟩ => ⟨way, item⟩ :: entriesOfAll (way ++ [item.subject]) children

def entriesOfAll (way : List Attribute) : List FilterNode → List Entry
  | [] => []
  | n :: rest => n.entries way ++ entriesOfAll way rest

end

/-- A node that asks for an attribute of an entity, and for nothing else about it than that a column is tested. -/
inductive Fits (registry : Registry) : Entity → FilterNode → Prop
  | association {e target : Entity} {a : Attribute} {nodes : List FilterNode} (member : a ∈ e.attributes)
      (step : IsStep a.property) (found : registry.targetOf a = .ok target)
      (below : ∀ n ∈ nodes, Fits registry target n) : Fits registry e ⟨{ subject := a }, nodes⟩
  | column {e : Entity} {a : Attribute} {predicate : Option Predicate} (member : a ∈ e.attributes)
      (step : IsStep a.property) (isColumn : a.isAssociation = false) :
      Fits registry e ⟨{ subject := a, predicate := predicate }, []⟩

inductive AreAlone : List FilterNode → Prop
  | mk {nodes : List FilterNode}
      (apart : (nodes.map (·.item.subject)).Pairwise fun a b => a.id = b.id → a.isAssociation = false)
      (below : ∀ n ∈ nodes, AreAlone n.children) : AreAlone nodes

structure Takes (registry : Registry) (e : Entity) (start way : List Attribute) (a : Attribute)
    (predicate : Option Predicate) (nodes after : List FilterNode) : Prop where
  fits : ∀ n ∈ after, n.Fits registry e
  alone : AreAlone after
  kept : entriesOfAll start nodes ⊆ entriesOfAll start after
  asked : ∃ item : FilterItem, item.subject = a ∧ ⟨start ++ way, item⟩ ∈ entriesOfAll start after
  tests : ((entriesOfAll start after).filterMap (·.test?)).Perm
    ((entriesOfAll start nodes).filterMap (·.test?) ++ predicate.toList.map fun p => ⟨start ++ way, a, p⟩)

variable {registry : Registry} {e target last : Entity} {a b : Attribute} {start way : List Attribute}
  {predicate : Option Predicate} {nodes others after : List FilterNode} {n : FilterNode} {address : List Nat}

theorem entriesOfAll_append (start : List Attribute) (nodes others : List FilterNode) :
    entriesOfAll start (nodes ++ others) = entriesOfAll start nodes ++ entriesOfAll start others := by
  induction nodes with
  | nil => rfl
  | cons n rest ih => rw [List.cons_append, entriesOfAll, entriesOfAll, ih, List.append_assoc]

theorem mem_entries (n : FilterNode) (start : List Attribute) : ⟨start, n.item⟩ ∈ n.entries start := by
  cases n
  exact List.mem_cons_self ..

theorem entries_subset (member : n ∈ nodes) : n.entries start ⊆ entriesOfAll start nodes := by
  obtain ⟨before, rest, rfl⟩ := List.append_of_mem member
  rw [entriesOfAll_append]
  exact fun _ inside => List.mem_append_right _ (List.mem_append_left _ inside)

namespace Fits

theorem member (fits : n.Fits registry e) : n.item.subject ∈ e.attributes := by
  cases fits <;> assumption

theorem step (fits : n.Fits registry e) : IsStep n.item.subject.property := by
  cases fits <;> assumption

theorem subject_eq (fits : n.Fits registry e) (built : registry.AreBuilt) (known : e ∈ registry.all)
    (member : a ∈ e.attributes) (same : n.id = a.id) : n.item.subject = a :=
  (built e known).eq_of_property fits.member member (congrArg AttributeId.property same)

/-- The node of an association leads on to nodes of its target. -/
theorem inside (fits : n.Fits registry e) (found : registry.targetOf n.item.subject = .ok target) :
    n.item = { subject := n.item.subject } ∧ ∀ child ∈ n.children, child.Fits registry target := by
  cases fits with
  | association _ _ known below =>
      cases found.symm.trans known
      exact ⟨rfl, below⟩
  | column _ _ isColumn =>
      rw [Registry.isAssociation_of_targetOf found] at isColumn
      contradiction

theorem leads (fits : n.Fits registry e) (kind : n.item.subject.isAssociation = true) :
    ∃ target, registry.targetOf n.item.subject = .ok target ∧ ∀ child ∈ n.children, child.Fits registry target := by
  cases fits with
  | association _ _ found below => exact ⟨_, found, below⟩
  | column _ _ isColumn =>
      rw [isColumn] at kind
      contradiction

end Fits

namespace AreAlone

theorem nil : AreAlone [] :=
  ⟨by simp, by simp⟩

theorem children (alone : AreAlone nodes) (member : n ∈ nodes) : AreAlone n.children := by
  cases alone with
  | mk _ below => exact below n member

/-- A new node is for a column, or for an association that there is none of yet. -/
theorem concat (alone : AreAlone nodes) (deeper : AreAlone n.children)
    (new : ∀ m ∈ nodes, m.id = n.id → m.item.subject.isAssociation = false) : AreAlone (nodes ++ [n]) := by
  cases alone with
  | mk apart below =>
      constructor
      · rw [List.map_append, List.pairwise_append]
        refine ⟨apart, List.pairwise_singleton _ _, fun a inside b last => ?_⟩
        obtain ⟨m, member, rfl⟩ := List.mem_map.mp inside
        rw [List.map_singleton, List.mem_singleton] at last
        exact last ▸ new m member
      · intro m inside
        rcases List.mem_append.mp inside with old | last
        · exact below m old
        · rw [List.mem_singleton.mp last]
          exact deeper

end AreAlone

theorem Takes.of_concat (fits : ∀ m ∈ nodes, m.Fits registry e) (alone : AreAlone nodes) (fit : n.Fits registry e)
    (deeper : AreAlone n.children) (new : ∀ m ∈ nodes, m.id = n.id → m.item.subject.isAssociation = false)
    (asked : ∃ item : FilterItem, item.subject = a ∧ ⟨start ++ way, item⟩ ∈ n.entries start)
    (tests : ((n.entries start).filterMap (·.test?)).Perm (predicate.toList.map fun p => ⟨start ++ way, a, p⟩)) :
    Takes registry e start way a predicate nodes (nodes ++ [n]) := by
  have listed : entriesOfAll start (nodes ++ [n]) = entriesOfAll start nodes ++ n.entries start := by
    rw [entriesOfAll_append, entriesOfAll, entriesOfAll, List.append_nil]
  refine ⟨fun m inside => ?_, alone.concat deeper new, ?_, ?_, ?_⟩
  · rcases List.mem_append.mp inside with old | last
    · exact fits m old
    · exact List.mem_singleton.mp last ▸ fit
  · rw [listed]
    exact List.subset_append_left _ _
  · obtain ⟨item, subject, member⟩ := asked
    exact ⟨item, subject, listed ▸ List.mem_append_right _ member⟩
  · rw [listed, List.filterMap_append]
    exact tests.append_left _

theorem Fits.project (registered : registry.IsRegistered) (known : e ∈ registry.all) (member : a ∈ e.attributes)
    (step : IsStep a.property) : (FilterNode.project a).Fits registry e := by
  cases kind : a.isAssociation with
  | true =>
      obtain ⟨target, -, found, -⟩ := registered.targetOf_association known member kind
      exact .association member step found (by simp)
  | false => exact .column member step kind

theorem placeLast_takes (registered : registry.IsRegistered) (known : e ∈ registry.all) (member : a ∈ e.attributes)
    (step : IsStep a.property) (fits : ∀ n ∈ nodes, n.Fits registry e) (alone : AreAlone nodes)
    (start : List Attribute) (placed : placeLast a predicate nodes = (after, .ok address)) :
    Takes registry e start [] a predicate nodes after := by
  cases predicate with
  | some p =>
      cases kind : a.isAssociation with
      | true => simp [placeLast, leaf, kind] at placed
      | false =>
          simp only [placeLast, leaf, kind, Bool.false_eq_true, if_false, Prod.mk.injEq] at placed
          rw [← placed.1]
          refine .of_concat fits alone (.column member step kind) .nil (fun m inside same => ?_) ?_ ?_
          · rw [(fits m inside).subject_eq registered.built known member same]
            exact kind
          · exact ⟨{ subject := a, predicate := some p }, rfl, by simp [entries]⟩
          · simp [entries, entriesOfAll, Entry.test?]
  | none =>
      unfold placeLast at placed
      dsimp only at placed
      split at placed
      next position found =>
        cases placed
        obtain ⟨bound, holds, -⟩ := List.findIdx?_eq_some_iff_getElem.mp found
        rw [Bool.and_eq_true, beq_iff_eq] at holds
        have inside := List.getElem_mem bound
        refine ⟨fits, alone, fun _ there => there, ⟨nodes[position].item, ?_, ?_⟩, by simp⟩
        · exact (fits _ inside).subject_eq registered.built known member holds.1
        · rw [List.append_nil]
          exact entries_subset inside (mem_entries _ start)
      next absent =>
        cases placed
        refine .of_concat fits alone (.project registered known member step) .nil (fun m inside same => ?_) ?_ ?_
        · have untested := List.findIdx?_eq_none_iff.mp absent m inside
          have same : m.id = a.id := same
          rw [same, beq_self_eq_true, Bool.true_and] at untested
          cases fits m inside with
          | association => contradiction
          | column _ _ isColumn => exact isColumn
        · exact ⟨{ subject := a }, rfl, by simp [project, entries]⟩
        · simp [project, entries, entriesOfAll, Entry.test?]

/-- What is added below the node of an association is added to the nodes among which that stands. -/
theorem Takes.of_children {before rest children : List FilterNode} {item : FilterItem}
    (found : registry.targetOf item.subject = .ok target)
    (fits : ∀ m ∈ before ++ ⟨item, nodes⟩ :: rest, m.Fits registry e)
    (alone : AreAlone (before ++ ⟨item, nodes⟩ :: rest))
    (takes : Takes registry target (start ++ [item.subject]) way a predicate nodes children) :
    Takes registry e start (item.subject :: way) a predicate (before ++ ⟨item, nodes⟩ :: rest)
      (before ++ ⟨item, children⟩ :: rest) := by
  have inside : (⟨item, nodes⟩ : FilterNode) ∈ before ++ ⟨item, nodes⟩ :: rest :=
    List.mem_append_right _ (List.mem_cons_self ..)
  have fit := fits _ inside
  have plain : item = { subject := item.subject } := (fit.inside found).1
  have listed (children : List FilterNode) : entriesOfAll start (before ++ ⟨item, children⟩ :: rest) =
      entriesOfAll start before ++ (⟨start, item⟩ :: entriesOfAll (start ++ [item.subject]) children) ++
        entriesOfAll start rest := by
    rw [entriesOfAll_append, entriesOfAll, entries, List.append_assoc]
  obtain ⟨below, aloneBelow, kept, ⟨asked, subject, member⟩, tests⟩ := takes
  rw [List.append_assoc, List.singleton_append] at member tests
  refine ⟨fun m among => ?_, ⟨?_, fun m among => ?_⟩, fun x there => ?_, ⟨asked, subject, ?_⟩, ?_⟩
  · rcases List.mem_append.mp among with early | later
    · exact fits m (List.mem_append_left _ early)
    · rcases List.mem_cons.mp later with rfl | last
      · rw [plain]
        exact .association fit.member fit.step found below
      · exact fits m (List.mem_append_right _ (List.mem_cons_of_mem _ last))
  · cases alone with
    | mk apart _ => simpa using apart
  · rcases List.mem_append.mp among with early | later
    · exact alone.children (List.mem_append_left _ early)
    · rcases List.mem_cons.mp later with rfl | last
      · exact aloneBelow
      · exact alone.children (List.mem_append_right _ (List.mem_cons_of_mem _ last))
  · rw [listed] at there ⊢
    simp only [List.mem_append, List.mem_cons] at there ⊢
    exact there.imp_left (Or.imp_right (Or.imp_right (@kept x)))
  · rw [listed]
    exact List.mem_append_left _ (List.mem_append_right _ (List.mem_cons_of_mem _ member))
  · have untested : Entry.test? ⟨start, item⟩ = none := by
      rw [plain]
      rfl
    rw [listed, listed]
    simp only [List.filterMap_append, List.filterMap_cons_none untested]
    -- What is new comes behind the tests below the node, and so in front of those of later nodes.
    refine ((tests.append_left _).append_right _).trans ?_
    simp only [List.append_assoc]
    exact ((List.perm_append_comm).append_left _).append_left _

/-- The attribute at the end of a way is added below the nodes on the way, which are added where they are missing. -/
theorem placeAlong_takes (registered : registry.IsRegistered) (known : e ∈ registry.all)
    (follows : registry.Follows e way last) (member : a ∈ last.attributes) (step : IsStep a.property)
    (fits : ∀ n ∈ nodes, n.Fits registry e) (alone : AreAlone nodes) (start : List Attribute)
    (placed : placeAlong a predicate way nodes = (after, .ok address)) :
    Takes registry e start way a predicate nodes after := by
  induction follows generalizing nodes after address start with
  | nil => exact placeLast_takes registered known member step fits alone start placed
  | @cons e target last b way inside named found follows ih =>
      have targetKnown := Registry.IsRegistered.mem_of_targetOf found
      unfold placeAlong at placed
      dsimp only at placed
      split at placed
      next position there =>
        obtain ⟨bound, holds, -⟩ := List.findIdx?_eq_some_iff_getElem.mp there
        have subject := (fits _ (List.getElem_mem bound)).subject_eq registered.built known inside (beq_iff_eq.mp holds)
        rw [List.getElem?_eq_getElem bound, Option.map_some, Option.getD_some, Prod.mk.injEq,
          List.modify_eq_take_cons_drop bound] at placed
        obtain ⟨rfl, placed⟩ := placed
        obtain ⟨deeper, placed, -⟩ := map_eq_ok.mp placed
        have split : nodes = nodes.take position ++ nodes[position] :: nodes.drop (position + 1) := by
          rw [List.getElem_cons_drop, List.take_append_drop]
        generalize nodes[position] = n at *
        generalize nodes.take position = before, nodes.drop (position + 1) = rest at *
        obtain ⟨item, children⟩ := n
        subst split
        subst subject
        have among : (⟨item, children⟩ : FilterNode) ∈ before ++ ⟨item, children⟩ :: rest :=
          List.mem_append_right _ (List.mem_cons_self ..)
        exact .of_children found fits alone (ih targetKnown member ((fits _ among).inside found).2
          (alone.children among) _ (Prod.ext rfl placed))
      next absent =>
        rw [Prod.mk.injEq] at placed
        obtain ⟨rfl, placed⟩ := placed
        obtain ⟨deeper, placed, -⟩ := map_eq_ok.mp placed
        obtain ⟨below, aloneBelow, -, ⟨item, subject, asked⟩, tests⟩ :=
          ih targetKnown member (by simp) .nil (start ++ [b]) (Prod.ext rfl placed)
        rw [List.append_assoc, List.singleton_append] at asked tests
        refine .of_concat fits alone (.association inside named found below) aloneBelow (fun m among same => ?_)
          ⟨item, subject, List.mem_cons_of_mem _ asked⟩ tests
        have other := List.findIdx?_eq_none_iff.mp absent m among
        have same : m.id = b.id := same
        simp [same] at other

end FilterNode

namespace FilterTree

def test? (t : FilterTree) (registry : Registry) (q : Request) : Option Test :=
  match t.resolve registry q.path with
  | .ok found => q.predicate.map fun p => ⟨found.1, found.2, p⟩
  | .error _ => none

structure IsOf (registry : Registry) (requests : List Request) (t : FilterTree) : Prop where
  single : t.otherRoots = []
  known : t.root ∈ registry.all
  fits : ∀ n ∈ t.nodes, n.Fits registry t.root
  alone : FilterNode.AreAlone t.nodes
  asked : ∀ q ∈ requests, ∃ way a, t.resolve registry q.path = .ok (way, a) ∧
    ∃ item : FilterItem, item.subject = a ∧ ⟨way, item⟩ ∈ FilterNode.entriesOfAll [] t.nodes
  tests : ((FilterNode.entriesOfAll [] t.nodes).filterMap (·.test?)).Perm (requests.filterMap (t.test? registry))

variable {registry : Registry} {requests others : List Request} {q : Request} {t after : FilterTree}
  {address : List Nat} {name : String}

theorem isOf_empty (found : ofNames registry [name] = .ok t) : t.IsOf registry [] := by
  obtain ⟨roots, named, found⟩ := bind_eq_ok.mp found
  have each := forall₂_of_mapM named
  rcases each with _ | ⟨isRoot, _ | _⟩
  cases found
  exact ⟨rfl, Registry.mem_all_of_entity isRoot, by simp, .nil, by simp, .nil⟩

theorem IsOf.addPath (registered : registry.IsRegistered) (isOf : t.IsOf registry requests)
    (added : t.addPath registry q.path q.predicate = (after, .ok address)) :
    after.IsOf registry (requests ++ [q]) := by
  unfold FilterTree.addPath at added
  split at added
  next => simp at added
  next way a found =>
    rw [Prod.mk.injEq] at added
    obtain ⟨rfl, placed⟩ := added
    have placed : (FilterNode.placeAlong a q.predicate way t.nodes).2 = .ok address := by
      cases outcome : (FilterNode.placeAlong a q.predicate way t.nodes).2 with
      | error cause =>
          rw [outcome] at placed
          contradiction
      | ok there =>
          rw [outcome] at placed
          cases placed
          rfl
    obtain ⟨last, follows, member, step, -⟩ := follows_of_resolve isOf.single found
    obtain ⟨fits, alone, kept, asked, tests⟩ := FilterNode.placeAlong_takes registered isOf.known follows member step
      isOf.fits isOf.alone [] (Prod.ext rfl placed)
    refine ⟨isOf.single, isOf.known, fits, alone, fun other among => ?_, tests.trans ?_⟩
    · rcases List.mem_append.mp among with old | new
      · obtain ⟨way, a, found, item, subject, there⟩ := isOf.asked other old
        exact ⟨way, a, found, item, subject, kept there⟩
      · rw [List.mem_singleton.mp new]
        exact ⟨way, a, found, asked⟩
    · rw [List.filterMap_append]
      have test : t.test? registry q = q.predicate.map fun p => ⟨way, a, p⟩ := by
        rw [test?, found]
      refine isOf.tests.append (.of_eq ?_)
      change _ = List.filterMap (t.test? registry) [q]
      rw [List.filterMap_cons, test]
      cases q.predicate <;> rfl

theorem IsOf.request (registered : registry.IsRegistered) (isOf : t.IsOf registry requests)
    (added : t.request registry others = .ok after) : after.IsOf registry (requests ++ others) := by
  induction others generalizing t requests with
  | nil =>
      cases added
      rwa [List.append_nil]
  | cons q rest ih =>
      rw [FilterTree.request] at added
      split at added
      next further address first =>
        have next := ih (isOf.addPath registered first) added
        rwa [List.append_assoc] at next
      next => contradiction

end FilterTree

end ViewEngine
