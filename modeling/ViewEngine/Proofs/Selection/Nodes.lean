import ViewEngine.Proofs.Assembly.Trails
import ViewEngine.Proofs.Propagation.Addresses

namespace ViewEngine

open Compile

/-- A node that no counted node is above. It belongs to the statement of the innermost collection around it, or else to
that of the root rows, whose path is empty; it stands on the rows of some entities that properties lead to. -/
inductive FilterTree.Reaches (registry : Registry) (t : FilterTree) :
    String → List String → List Entity → FilterNode → Prop
  | top {n : FilterNode} (member : n ∈ t.nodes) : Reaches registry t "" [] t.roots n
  | single {part : String} {names : List String} {es : List Entity} {n child : FilterNode} {e target : Entity}
      {a : Attribute} (reaches : Reaches registry t part names es n) (plain : n.item.aggregate = none)
      (found : resolve? n.item es = some (e, a)) (single : a.isCollection = false)
      (leads : registry.targetOf a = .ok target) (member : child ∈ n.children) :
      Reaches registry t part (names ++ [a.property]) [target] child
  | collection {part : String} {names : List String} {es : List Entity} {n child : FilterNode} {e target : Entity}
      {a : Attribute} (reaches : Reaches registry t part names es n) (plain : n.item.aggregate = none)
      (found : resolve? n.item es = some (e, a)) (collection : a.isCollection = true)
      (leads : registry.targetOf a = .ok target) (member : child ∈ n.children) :
      Reaches registry t (".".intercalate (names ++ [a.property])) (names ++ [a.property]) [target] child

mutual

def FilterNode.paths (above : String) : FilterNode → List String
  | ⟨item, children⟩ =>
    Path.child above item.subject.property :: pathsOfAll (Path.child above item.subject.property) children

def FilterNode.pathsOfAll (above : String) : List FilterNode → List String
  | [] => []
  | n :: rest => n.paths above ++ pathsOfAll above rest

end

/-- A node at the end of the path asks for the elements of a collection, and not only for how many there are. -/
def FilterTree.HasCollection (registry : Registry) (t : FilterTree) (path : String) : Prop :=
  ∃ part names es n e a, t.Reaches registry part names es n ∧ n.item.aggregate = none ∧
    resolve? n.item es = some (e, a) ∧ a.isCollection = true ∧ path = ".".intercalate (names ++ [a.property])

namespace Compile

/-- What a walk over nodes reaches: a node that applies to the rows, or one further down in the same statement. -/
inductive IsReached (registry : Registry) (plan : JoinPlan) :
    List Entity → Nat → String → List FilterNode → Reached → Prop
  | here {es : List Entity} {table : Nat} {above : String} {nodes : List FilterNode} {n : FilterNode} {e : Entity}
      {a : Attribute} (member : n ∈ nodes) (found : resolve? n.item es = some (e, a)) :
      IsReached registry plan es table above nodes ⟨n.item, n.children, a, table, Path.child above a.property⟩
  | further {es : List Entity} {table : Nat} {above : String} {nodes : List FilterNode} {n : FilterNode}
      {e target : Entity} {a : Attribute} {x : Reached} (member : n ∈ nodes)
      (found : resolve? n.item es = some (e, a)) (plain : n.item.aggregate = none) (single : a.isCollection = false)
      (leads : registry.targetOf a = .ok target)
      (inside : IsReached registry plan [target] (plan.tableAt (Path.child above a.property) a)
        (Path.child above a.property) n.children x) : IsReached registry plan es table above nodes x

variable {registry : Registry} {plan : JoinPlan} {es : List Entity} {table : Nat} {above : String}
  {nodes : List FilterNode} {n : FilterNode} {x y : Reached}

theorem IsReached.mono {others : List FilterNode} (reached : IsReached registry plan es table above nodes x)
    (more : nodes ⊆ others) : IsReached registry plan es table above others x := by
  cases reached with
  | here member found => exact .here (more member) found
  | further member found plain single leads inside => exact .further (more member) found plain single leads inside

mutual

theorem isReached_of_reachedOfAll (nodes : List FilterNode) {es : List Entity} {table : Nat} {above : String}
    (member : x ∈ reachedOfAll registry plan es table above nodes) :
    IsReached registry plan es table above nodes x := by
  match nodes with
  | [] => contradiction
  | n :: rest =>
      rcases List.mem_append.mp member with first | later
      · exact (isReached_of_reachedOf n first).mono (by simp)
      · exact (isReached_of_reachedOfAll rest later).mono (List.subset_cons_self ..)

theorem isReached_of_reachedOf (n : FilterNode) {es : List Entity} {table : Nat} {above : String}
    (member : x ∈ reachedOf registry plan es table above n) : IsReached registry plan es table above [n] x := by
  match n with
  | ⟨item, children⟩ =>
      unfold reachedOf at member
      split at member
      · contradiction
      next e a found =>
        have isFirst : (⟨item, children⟩ : FilterNode) ∈ [(⟨item, children⟩ : FilterNode)] := List.mem_singleton_self _
        rcases List.mem_cons.mp member with rfl | below
        · exact .here isFirst found
        · split at below
          · contradiction
          next further =>
            simp only [Bool.or_eq_true, not_or, Bool.not_eq_true, Option.isSome_eq_false_iff, Option.isNone_iff_eq_none]
              at further
            split at below
            next target leads =>
              exact .further isFirst found further.1 further.2 leads (isReached_of_reachedOfAll children below)
            next => contradiction

end

theorem reachedOf_subset (member : n ∈ nodes) :
    reachedOf registry plan es table above n ⊆ reachedOfAll registry plan es table above nodes := by
  induction nodes with
  | nil => contradiction
  | cons first rest ih =>
      rw [reachedOfAll]
      rcases List.mem_cons.mp member with rfl | later
      · exact List.subset_append_left _ _
      · exact List.Subset.trans (ih later) (List.subset_append_right _ _)

/-- The list of what is reached has what the rules say. -/
theorem mem_reachedOfAll_iff :
    x ∈ reachedOfAll registry plan es table above nodes ↔ IsReached registry plan es table above nodes x := by
  refine ⟨isReached_of_reachedOfAll nodes, fun reached => ?_⟩
  induction reached with
  | @here es table above nodes n e a member found =>
      refine reachedOf_subset member ?_
      obtain ⟨item, children⟩ := n
      unfold reachedOf
      rw [found]
      exact List.mem_cons_self ..
  | @further es table above nodes n e target a x member found plain single leads _ ih =>
      refine reachedOf_subset member ?_
      obtain ⟨item, children⟩ := n
      unfold reachedOf
      rw [found]
      refine List.mem_cons_of_mem _ ?_
      have counted : item.aggregate = none := plain
      simp only [counted, single, leads, Option.isSome_none, Bool.or_self, Bool.false_eq_true, if_false]
      exact ih

/-- Below an association to one row the same statement goes on. -/
theorem IsReached.closed (reached : IsReached registry plan es table above nodes x) (plain : x.item.aggregate = none)
    (single : x.subject.isCollection = false) {target : Entity} (leads : registry.targetOf x.subject = .ok target)
    (inside : IsReached registry plan [target] (plan.tableAt x.path x.subject) x.path x.children y) :
    IsReached registry plan es table above nodes y := by
  induction reached with
  | here member found => exact .further member found plain single leads inside
  | further member found plain' single' leads' _ ih =>
      exact .further member found plain' single' leads' (ih plain single leads inside)

/-- What is reached lies less deep than the nodes that the walk begins with. -/
theorem IsReached.depth_lt (reached : IsReached registry plan es table above nodes x) :
    FilterNode.depthOfAll x.children < FilterNode.depthOfAll nodes := by
  have deeper {nodes : List FilterNode} {n : FilterNode} (member : n ∈ nodes) :
      FilterNode.depthOfAll n.children < FilterNode.depthOfAll nodes := by
    induction nodes with
    | nil => contradiction
    | cons first rest ih =>
        rw [FilterNode.depthOfAll]
        rcases List.mem_cons.mp member with rfl | later
        · cases n
          exact Nat.lt_of_lt_of_le (Nat.lt_succ_self _) (Nat.le_max_left _ _)
        · exact Nat.lt_of_lt_of_le (ih later) (Nat.le_max_right _ _)
  induction reached with
  | here member found => exact deeper member
  | further member _ _ _ _ _ ih => exact Nat.lt_trans ih (deeper member)

end Compile

namespace FilterTree.Reaches

variable {setting : Setting} {t : FilterTree} {part : String} {names : List String} {es others : List Entity}
  {n m : FilterNode} {e : Entity} {a b : Attribute}

/-- The properties of what is reached are those of a way along associations. -/
theorem along (addressable : setting.IsAddressable t.roots) (reaches : t.Reaches setting.registry part names es n) :
    (∀ name ∈ names, IsStep name) ∧ ∃ outers, Along setting.registry t.roots names es outers := by
  have declared {names : List String} {es : List Entity} {outers : List EnclosingCollection} {n : FilterNode}
      {e : Entity} {a : Attribute} {target : Entity} (along : Along setting.registry t.roots names es outers)
      (found : resolve? n.item es = some (e, a)) (leads : setting.registry.targetOf a = .ok target) :
      IsStep a.property ∧ declarer? es a.property = some (e, a) := by
    obtain ⟨member, held, -⟩ := resolve?_eq_some found
    have isAssociation := Registry.isAssociation_of_targetOf leads
    have property : a.property = n.item.subject.property := by simpa using List.find?_some held
    refine ⟨addressable.steps e (along.known e member) a (List.mem_of_find?_eq_some held) isAssociation, ?_⟩
    rw [property]
    exact declarer?_of_resolve? (along.agreed addressable.agreed) found isAssociation
  have further {names : List String} {name : String} (steps : ∀ name ∈ names, IsStep name) (step : IsStep name) :
      ∀ other ∈ names ++ [name], IsStep other := by
    intro other member
    rcases List.mem_append.mp member with old | last
    · exact steps other old
    · exact List.mem_singleton.mp last ▸ step
  induction reaches with
  | top => exact ⟨by simp, [], .root⟩
  | single _ _ found single leads _ ih =>
      obtain ⟨steps, outers, along⟩ := ih
      obtain ⟨step, declared⟩ := declared along found leads
      exact ⟨further steps step, outers, .single along declared leads single⟩
  | collection _ _ found collection leads _ ih =>
      obtain ⟨steps, outers, along⟩ := ih
      obtain ⟨step, declared⟩ := declared along found leads
      exact ⟨further steps step, _,
        .collection along declared leads collection (Path.properties_intercalate (further steps step))⟩

theorem eq_of_path (addressable : setting.IsAddressable t.roots) {other : String} {names' : List String}
    (reaches : t.Reaches setting.registry part names es n) (again : t.Reaches setting.registry other names' others m)
    {e' : Entity} (found : resolve? n.item es = some (e, a)) (found' : resolve? m.item others = some (e', b))
    (isAssociation : a.isAssociation = true) (isAssociation' : b.isAssociation = true)
    (same : ".".intercalate (names ++ [a.property]) = ".".intercalate (names' ++ [b.property])) :
    names = names' ∧ a = b := by
  obtain ⟨steps, outers, along⟩ := reaches.along addressable
  obtain ⟨steps', outers', along'⟩ := again.along addressable
  obtain ⟨member, held, -⟩ := resolve?_eq_some found
  obtain ⟨member', held', -⟩ := resolve?_eq_some found'
  have property : a.property = n.item.subject.property := by simpa using List.find?_some held
  have property' : b.property = m.item.subject.property := by simpa using List.find?_some held'
  rw [Path.intercalate_concat fun name inside => (steps name inside).1,
    Path.intercalate_concat fun name inside => (steps' name inside).1] at same
  obtain ⟨above, last⟩ := Path.child_inj
    (addressable.steps e (along.known e member) a (List.mem_of_find?_eq_some held) isAssociation)
    (addressable.steps e' (along'.known e' member') b (List.mem_of_find?_eq_some held') isAssociation') same
  obtain rfl : names = names' := by
    rw [← Path.properties_intercalate steps, above, Path.properties_intercalate steps']
  obtain ⟨rfl, -⟩ := along.unique along'
  have declared := declarer?_of_resolve? (along.agreed addressable.agreed) found isAssociation
  have declared' := declarer?_of_resolve? (along.agreed addressable.agreed) found' isAssociation'
  rw [← property] at declared
  rw [← property', ← last, declared] at declared'
  cases declared'
  exact ⟨rfl, rfl⟩

theorem items_subset {registry : Registry} (reaches : t.Reaches registry part names es n) :
    n.items ⊆ FilterNode.itemsOfAll t.nodes := by
  have inside {nodes : List FilterNode} {m : FilterNode} (member : m ∈ nodes) :
      m.items ⊆ FilterNode.itemsOfAll nodes := by
    obtain ⟨before, rest, rfl⟩ := List.append_of_mem member
    rw [FilterNode.itemsOfAll_append]
    exact fun _ among => List.mem_append_right _ (List.mem_append_left _ among)
  have below {m child : FilterNode} (member : child ∈ m.children) : child.items ⊆ m.items := by
    cases m
    exact fun _ among => List.mem_cons_of_mem _ (inside member among)
  induction reaches with
  | top member => exact inside member
  | single _ _ _ _ _ member ih => exact fun _ among => ih (below member among)
  | collection _ _ _ _ _ member ih => exact fun _ among => ih (below member among)

theorem mem_paths (addressable : setting.IsAddressable t.roots) (reaches : t.Reaches setting.registry part names es n)
    (found : resolve? n.item es = some (e, a)) :
    ".".intercalate (names ++ [a.property]) ∈ FilterNode.pathsOfAll "" t.nodes := by
  have inside {nodes : List FilterNode} {m : FilterNode} {above : String} (member : m ∈ nodes) :
      m.paths above ⊆ FilterNode.pathsOfAll above nodes := by
    induction nodes with
    | nil => contradiction
    | cons first rest ih =>
        rw [FilterNode.pathsOfAll]
        rcases List.mem_cons.mp member with rfl | later
        · exact List.subset_append_left _ _
        · exact List.Subset.trans (ih later) (List.subset_append_right _ _)
  have property {m : FilterNode} {es : List Entity} {e : Entity} {a : Attribute}
      (found : resolve? m.item es = some (e, a)) : a.property = m.item.subject.property := by
    simpa using List.find?_some (resolve?_eq_some found).2.1
  have below {m child : FilterNode} {es : List Entity} {e : Entity} {a : Attribute} {names : List String}
      (steps : ∀ name ∈ names ++ [a.property], IsStep name) (found : resolve? m.item es = some (e, a))
      (member : child ∈ m.children) :
      child.paths (".".intercalate (names ++ [a.property])) ⊆ m.paths (".".intercalate names) := by
    rw [Path.intercalate_concat fun name early => (steps name (List.mem_append_left _ early)).1, property found]
    cases m
    exact fun _ among => List.mem_cons_of_mem _ (inside member among)
  have whole : n.paths (".".intercalate names) ⊆ FilterNode.pathsOfAll "" t.nodes := by
    clear found
    induction reaches with
    | top member => exact inside member
    | single before plain found single leads member ih =>
        have steps := ((before.single plain found single leads member).along addressable).1
        exact fun _ among => ih (below steps found member among)
    | collection before plain found collection leads member ih =>
        have steps := ((before.collection plain found collection leads member).along addressable).1
        exact fun _ among => ih (below steps found member among)
  refine whole ?_
  rw [Path.intercalate_concat fun name early => ((reaches.along addressable).1 name early).1, property found]
  cases n
  exact List.mem_cons_self ..

/-- From a node on, a walk over the nodes below it reaches nodes of the tree. -/
theorem of_isReached (addressable : setting.IsAddressable t.roots) {plan : JoinPlan} {table : Nat} {above : String}
    {nodes : List FilterNode} {x : Reached} (reached : IsReached setting.registry plan es table above nodes x)
    (all : ∀ n ∈ nodes, t.Reaches setting.registry part names es n) (path : above = ".".intercalate names) :
    ∃ names es e, t.Reaches setting.registry part names es ⟨x.item, x.children⟩ ∧
      resolve? x.item es = some (e, x.subject) ∧ x.path = ".".intercalate (names ++ [x.subject.property]) := by
  induction reached generalizing names with
  | @here es table above nodes n e a member found =>
      have reaches := all n member
      obtain ⟨steps, -⟩ := reaches.along addressable
      refine ⟨names, es, e, (by cases n; exact reaches), found, ?_⟩
      rw [Path.intercalate_concat fun name inside => (steps name inside).1, ← path]
  | further member found plain single leads inside ih =>
      have reaches := all _ member
      obtain ⟨steps, -⟩ := reaches.along addressable
      refine ih (fun child among => .single reaches plain found single leads among) ?_
      rw [Path.intercalate_concat fun name inside => (steps name inside).1, ← path]

end FilterTree.Reaches

end ViewEngine
