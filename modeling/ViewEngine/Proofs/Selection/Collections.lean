import ViewEngine.Proofs.Selection.Rounds

namespace ViewEngine

open Compile

namespace Compile

structure Collected.IsAsked (registry : Registry) (t : FilterTree) (c : Collected) : Prop where
  asked : ∃ part names es n e, t.Reaches registry part names es n ∧ n.item.aggregate = none ∧
    resolve? n.item es = some (e, c.subject) ∧ c.subject.isCollection = true ∧
    c.path = ".".intercalate (names ++ [c.subject.property]) ∧
    ∀ target, registry.targetOf c.subject = .ok target →
      ∀ m ∈ c.nodes, t.Reaches registry c.path (names ++ [c.subject.property]) [target] m

def IsReachedIn (registry : Registry) (plan : JoinPlan) (t : FilterTree) (part : String) (reached : List Reached) :
    Prop :=
  (part = "" ∧ reached = reachedFrom registry plan t) ∨
    ∃ c ∈ collectedFrom registry plan t, c.path = part ∧ reached = c.reached registry plan

variable {setting : Setting} {plan : JoinPlan} {t : FilterTree} {c other : Collected} {reached : List Reached}
  {part path : String} {names : List String} {es : List Entity} {n : FilterNode} {e : Entity} {a : Attribute}
  {x : Reached}

theorem Collected.IsAsked.hasCollection {registry : Registry} (asked : c.IsAsked registry t) :
    t.HasCollection registry c.path := by
  obtain ⟨part, names, es, n, e, reaches, plain, found, collection, path, -⟩ := asked.asked
  exact ⟨part, names, es, n, e, c.subject, reaches, plain, found, collection, path⟩

/-- Collections at one path are the same one, so that the nodes below them can be put together. -/
theorem Collected.IsAsked.together (addressable : setting.IsAddressable t.roots)
    (one : c.IsAsked setting.registry t) (two : other.IsAsked setting.registry t) (same : other.path = c.path) :
    Collected.IsAsked setting.registry t { other with nodes := other.nodes ++ c.nodes } := by
  obtain ⟨part, names, es, n, e, reaches, -, found, collection, path, nodes⟩ := one.asked
  obtain ⟨part', names', es', n', e', reaches', plain', found', collection', path', nodes'⟩ := two.asked
  obtain ⟨rfl, subject⟩ := reaches'.eq_of_path addressable reaches found' found
    (Attribute.isAssociation_of_isCollection collection') (Attribute.isAssociation_of_isCollection collection)
    (path' ▸ path ▸ same)
  refine ⟨part', names', es', n', e', reaches', plain', found', collection', path', fun target leads m member => ?_⟩
  rcases List.mem_append.mp member with old | new
  · exact nodes' target leads m old
  · have stands := nodes target (subject ▸ leads) m new
    rw [← same, ← subject] at stands
    exact stands

/-- What a part reaches are nodes of the tree; where they ask for collections, these are asked for. -/
theorem IsReached.isAsked (addressable : setting.IsAddressable t.roots) {table : Nat} {above : String}
    {nodes : List FilterNode} (reached : IsReached setting.registry plan es table above nodes x)
    (all : ∀ n ∈ nodes, t.Reaches setting.registry part names es n) (above_eq : above = ".".intercalate names)
    (collection : x.isCollection = true) :
    Collected.IsAsked setting.registry t ⟨x.path, x.subject, x.children⟩ := by
  obtain ⟨names, es, e, reaches, found, path⟩ := FilterTree.Reaches.of_isReached addressable reached all above_eq
  have holds := Bool.and_eq_true_iff.mp collection
  have plain : x.item.aggregate = none := Option.isNone_iff_eq_none.mp holds.1
  refine ⟨part, names, es, _, e, reaches, plain, found, holds.2, path, fun target leads m member => ?_⟩
  rw [path]
  exact .collection reaches plain found holds.2 leads member

theorem isAsked_foldl_put (addressable : setting.IsAddressable t.roots) {collections : List Collected}
    (asked : ∀ c ∈ collections, c.IsAsked setting.registry t) :
    ∀ c ∈ collections.foldl Collected.put [], c.IsAsked setting.registry t :=
  Collected.forall_foldl_put (fun _ _ one two same => one.together addressable two same) (by simp) asked

/-- Statements are made for no other collections than those that are asked for. -/
theorem isAsked_of_collectedFrom (addressable : setting.IsAddressable t.roots) :
    ∀ c ∈ collectedFrom setting.registry plan t, c.IsAsked setting.registry t := by
  refine forall_collectedWithin (fun collections asked => ?_) ?_
  · refine isAsked_foldl_put addressable fun c member => ?_
    obtain ⟨d, inside, below⟩ := List.mem_flatMap.mp member
    obtain ⟨x, reached, collection, rfl⟩ := mem_filterMap_collected.mp below
    obtain ⟨target, leads, reached⟩ := d.isReached reached
    obtain ⟨part, names, es, n, e, -, -, -, -, path, nodes⟩ := (asked d inside).asked
    exact reached.isAsked addressable (nodes target leads) path collection
  · refine isAsked_foldl_put addressable fun c member => ?_
    obtain ⟨x, reached, collection, rfl⟩ := mem_filterMap_collected.mp member
    exact (mem_reachedOfAll_iff.mp reached).isAsked addressable (fun n => .top) rfl collection

/-- A collection that a part asks for has a part of its own, with the nodes below it. -/
theorem IsReachedIn.exists_collected {registry : Registry} (isPart : IsReachedIn registry plan t part reached)
    (member : x ∈ reached) (collection : x.isCollection = true) :
    ∃ c ∈ collectedFrom registry plan t, c.path = x.path ∧ x.children ⊆ c.nodes := by
  have deep : ∀ c ∈ ((reachedFrom registry plan t).filterMap (·.collected?)).foldl Collected.put [],
      FilterNode.depthOfAll c.nodes < FilterNode.depthOfAll t.nodes + 1 := by
    refine depth_foldl_put fun c among => ?_
    obtain ⟨y, reached, -, rfl⟩ := mem_filterMap_collected.mp among
    exact Nat.lt_succ_of_lt (mem_reachedOfAll_iff.mp reached).depth_lt
  rcases isPart with ⟨-, rfl⟩ | ⟨d, inside, -, rfl⟩
  · have putDown := mem_filterMap_collected.mpr ⟨x, member, collection, rfl⟩
    obtain ⟨c, among, found⟩ := Collected.exists_foldl_put [] (.inr putDown)
    refine ⟨c, ?_, found⟩
    rw [collectedFrom, collectedWithin]
    exact List.mem_append_left _ among
  · exact exists_further deep inside member collection

theorem IsReachedIn.reaches (addressable : setting.IsAddressable t.roots)
    (isPart : IsReachedIn setting.registry plan t part reached) (member : x ∈ reached) :
    ∃ names es e, t.Reaches setting.registry part names es ⟨x.item, x.children⟩ ∧
      resolve? x.item es = some (e, x.subject) ∧ x.path = ".".intercalate (names ++ [x.subject.property]) := by
  rcases isPart with ⟨rfl, rfl⟩ | ⟨c, inside, rfl, rfl⟩
  · exact FilterTree.Reaches.of_isReached addressable (mem_reachedOfAll_iff.mp member) (fun n => .top) rfl
  · obtain ⟨target, leads, isReached⟩ := c.isReached member
    obtain ⟨_, _, _, _, _, -, -, -, -, path, nodes⟩ := (isAsked_of_collectedFrom addressable c inside).asked
    exact FilterTree.Reaches.of_isReached addressable isReached (nodes target leads) path

end Compile

namespace FilterTree.Reaches

variable {setting : Setting} {plan : JoinPlan} {t : FilterTree} {part : String} {names : List String}
  {es : List Entity} {n : FilterNode} {e : Entity} {a : Attribute}

theorem exists_reached (addressable : setting.IsAddressable t.roots) (plan : JoinPlan)
    (reaches : t.Reaches setting.registry part names es n) (found : resolve? n.item es = some (e, a)) :
    ∃ reached, IsReachedIn setting.registry plan t part reached ∧ ∃ x ∈ reached, x.item = n.item ∧
      x.children = n.children ∧ x.subject = a ∧ x.path = ".".intercalate (names ++ [a.property]) := by
  have child {names : List String} (steps : ∀ name ∈ names, IsStep name) (last : String) :
      Path.child (".".intercalate names) last = ".".intercalate (names ++ [last]) :=
    (Path.intercalate_concat (fun name inside => (steps name inside).1) last).symm
  induction reaches generalizing e a with
  | top member =>
      exact ⟨_, .inl ⟨rfl, rfl⟩, _, mem_reachedOfAll_iff.mpr (.here member found), rfl, rfl, rfl,
        child (List.forall_mem_nil _) a.property⟩
  | @single part names es n m e' target b reaches plain found' single leads member ih =>
      obtain ⟨reached, isPart, x, inside, item, children, rfl, path⟩ := ih found'
      have steps := ((reaches.single plain found' single leads member).along addressable).1
      rw [← item] at plain
      rw [← children] at member
      let next : Reached := ⟨m.item, m.children, a, plan.tableAt x.path x.subject, Path.child x.path a.property⟩
      have isNext : IsReached setting.registry plan [target] next.table x.path x.children next := .here member found
      refine ⟨reached, isPart, next, ?_, rfl, rfl, rfl, (congrArg (Path.child · _) path).trans (child steps _)⟩
      rcases isPart with ⟨-, rfl⟩ | ⟨c, -, -, rfl⟩
      · exact mem_reachedOfAll_iff.mpr ((mem_reachedOfAll_iff.mp inside).closed plain single leads isNext)
      · obtain ⟨within, leads', isReached⟩ := c.isReached inside
        simp only [Collected.reached, leads']
        exact mem_reachedOfAll_iff.mpr (isReached.closed plain single leads isNext)
  | @collection part names es n m e' target b reaches plain found' collection leads member ih =>
      obtain ⟨reached, isPart, x, inside, item, children, rfl, path⟩ := ih found'
      have steps := ((reaches.collection plain found' collection leads member).along addressable).1
      have isCollection : x.isCollection = true := by
        rw [Reached.isCollection, item, plain, collection]
        rfl
      obtain ⟨c, isCollected, same, nodes⟩ := isPart.exists_collected inside isCollection
      obtain ⟨_, _, _, m', _, reaches', -, found'', collection', path', -⟩ :=
        (isAsked_of_collectedFrom addressable c isCollected).asked
      obtain ⟨-, subject⟩ := reaches.eq_of_path addressable reaches' found' found''
        (Attribute.isAssociation_of_isCollection collection) (Attribute.isAssociation_of_isCollection collection')
        (by rw [← path, ← path', same])
      let next : Reached := ⟨m.item, m.children, a, plan.tableAt c.path c.subject, Path.child c.path a.property⟩
      have isNext : IsReached setting.registry plan [target] next.table c.path c.nodes next :=
        .here (nodes (children ▸ member)) found
      refine ⟨_, .inr ⟨c, isCollected, same.trans path, rfl⟩, next, ?_, rfl, rfl, rfl,
        (congrArg (Path.child · _) (same.trans path)).trans (child steps _)⟩
      simp only [Collected.reached, ← subject, leads]
      exact mem_reachedOfAll_iff.mpr (subject ▸ isNext)

end FilterTree.Reaches

/-- There is a statement for each collection that the tree asks for, and for no other one. -/
theorem mem_collectedFrom_iff {setting : Setting} {plan : JoinPlan} {t : FilterTree} {path : String}
    (addressable : setting.IsAddressable t.roots) :
    path ∈ (collectedFrom setting.registry plan t).map (·.path) ↔ t.HasCollection setting.registry path := by
  constructor
  · intro member
    obtain ⟨c, inside, rfl⟩ := List.mem_map.mp member
    exact (isAsked_of_collectedFrom addressable c inside).hasCollection
  · rintro ⟨part, names, es, n, e, a, reaches, plain, found, collection, rfl⟩
    obtain ⟨reached, isPart, x, inside, item, -, rfl, path⟩ := reaches.exists_reached addressable plan found
    have isCollection : x.isCollection = true := by
      rw [Reached.isCollection, item, plain, collection]
      rfl
    obtain ⟨c, isCollected, same, -⟩ := isPart.exists_collected inside isCollection
    exact List.mem_map.mpr ⟨c, isCollected, same.trans path⟩

end ViewEngine
