import ViewEngine.Proofs.Requests.Trees

/-!
The branches of a tree: the nodes that stand on the root rows or on the elements of one collection, down to where
further collections begin. Level by level they have all that the tree asks for, and each of it once.
-/

namespace ViewEngine

structure Standing where
  way : List Attribute
  node : FilterNode

def Standing.entry (x : Standing) : Entry :=
  ⟨x.way, x.node.item⟩

mutual

def FilterNode.standings (way : List Attribute) : FilterNode → List Standing
  | ⟨item, children⟩ =>
    ⟨way, ⟨item, children⟩⟩ ::
      if item.subject.isCollection then [] else FilterNode.standingsOfAll (way ++ [item.subject]) children

def FilterNode.standingsOfAll (way : List Attribute) : List FilterNode → List Standing
  | [] => []
  | n :: rest => n.standings way ++ FilterNode.standingsOfAll way rest

end

/-- The nodes that stand on the rows at the end of a way. -/
structure Branch where
  way : List Attribute
  nodes : List FilterNode

namespace Branch

def standings (b : Branch) : List Standing :=
  FilterNode.standingsOfAll b.way b.nodes

def entries (b : Branch) : List Entry :=
  FilterNode.entriesOfAll b.way b.nodes

def ofStanding? (x : Standing) : Option Branch :=
  x.entry.collection?.map fun way => ⟨way, x.node.children⟩

def further (b : Branch) : List Branch :=
  b.standings.filterMap ofStanding?

def within : Nat → List Branch → List Branch
  | 0, _ => []
  | levels + 1, branches => branches ++ within levels (branches.flatMap (·.further))

end Branch

def FilterTree.branches (t : FilterTree) : List Branch :=
  Branch.within (FilterNode.depthOfAll t.nodes + 2) [⟨[], t.nodes⟩]

variable {registry : Registry} {root e last : Entity} {way start : List Attribute} {nodes : List FilterNode}
  {n : FilterNode} {x : Standing} {y : List Attribute} {b : Branch} {branches : List Branch} {levels : Nat}

namespace FilterNode

mutual

theorem entries_perm (way : List Attribute) (n : FilterNode) : (n.entries way).Perm
    ((n.standings way).map (·.entry) ++ ((n.standings way).filterMap Branch.ofStanding?).flatMap (·.entries)) := by
  match n with
  | ⟨item, children⟩ =>
      unfold entries standings
      cases kind : item.subject.isCollection with
      | true => simp [Branch.ofStanding?, Standing.entry, Entry.collection?, kind, Branch.entries]
      | false =>
          have single : Branch.ofStanding? ⟨way, ⟨item, children⟩⟩ = none := by
            simp [Branch.ofStanding?, Standing.entry, Entry.collection?, kind]
          rw [if_neg Bool.false_ne_true, List.filterMap_cons_none single]
          exact (entriesOfAll_perm _ children).cons _

theorem entriesOfAll_perm (way : List Attribute) (nodes : List FilterNode) : (entriesOfAll way nodes).Perm
    ((standingsOfAll way nodes).map (·.entry) ++
      ((standingsOfAll way nodes).filterMap Branch.ofStanding?).flatMap (·.entries)) := by
  match nodes with
  | [] => exact .refl _
  | n :: rest =>
      unfold entriesOfAll standingsOfAll
      rw [List.map_append, List.filterMap_append, List.flatMap_append, List.append_assoc]
      refine ((entries_perm way n).append (entriesOfAll_perm way rest)).trans ?_
      rw [List.append_assoc]
      exact (List.perm_append_comm_assoc _ _ _).append_left _

end

/-- A node of a branch is one of those at its way, or lies below one of them that begins no branch. -/
inductive Holds : List Attribute → List FilterNode → Standing → Prop
  | here {way : List Attribute} {nodes : List FilterNode} {n : FilterNode} (member : n ∈ nodes) :
      Holds way nodes ⟨way, n⟩
  | under {way : List Attribute} {nodes : List FilterNode} {n : FilterNode} {x : Standing} (member : n ∈ nodes)
      (single : n.item.subject.isCollection = false) (inside : Holds (way ++ [n.item.subject]) n.children x) :
      Holds way nodes x

mutual

theorem holds_of_standings (n : FilterNode) {way : List Attribute} (member : x ∈ n.standings way) :
    Holds way [n] x := by
  match n with
  | ⟨item, children⟩ =>
      unfold standings at member
      rcases List.mem_cons.mp member with rfl | below
      · exact .here (List.mem_singleton_self _)
      · split at below
        · contradiction
        next single =>
          have below := holds_of_standingsOfAll children below
          exact .under (List.mem_singleton_self _) (Bool.not_eq_true _ ▸ single) below

theorem holds_of_standingsOfAll (nodes : List FilterNode) {way : List Attribute}
    (member : x ∈ standingsOfAll way nodes) : Holds way nodes x := by
  match nodes with
  | [] => contradiction
  | n :: rest =>
      unfold standingsOfAll at member
      rcases List.mem_append.mp member with here | later
      · cases holds_of_standings n here with
        | here single => exact .here (List.mem_singleton.mp single ▸ List.mem_cons_self ..)
        | under single kind inside =>
            cases List.mem_singleton.mp single
            exact .under (List.mem_cons_self ..) kind inside
      · cases holds_of_standingsOfAll rest later with
        | here among => exact .here (List.mem_cons_of_mem _ among)
        | under among kind inside => exact .under (List.mem_cons_of_mem _ among) kind inside

end

theorem depth_le_of_mem (member : n ∈ nodes) : n.depth ≤ depthOfAll nodes := by
  induction nodes with
  | nil => contradiction
  | cons first rest ih =>
      rw [depthOfAll]
      rcases List.mem_cons.mp member with rfl | later
      · exact Nat.le_max_left _ _
      · exact (ih later).trans (Nat.le_max_right _ _)

theorem depth_children (n : FilterNode) : n.depth = depthOfAll n.children + 1 := by
  cases n
  rfl

namespace Holds

theorem depth_le (holds : Holds way nodes x) : x.node.depth ≤ depthOfAll nodes := by
  induction holds with
  | here member => exact depth_le_of_mem member
  | under member _ _ ih =>
      have deeper := depth_le_of_mem member
      rw [depth_children] at deeper
      omega

theorem innermost_eq (holds : Holds way nodes x) : innermost x.way = innermost way := by
  induction holds with
  | here => rfl
  | under _ single _ ih => rw [ih, innermost_of_single single]

/-- The nodes of a branch ask for attributes of the entities that they stand on. -/
theorem fits (holds : Holds way nodes x) (follows : registry.Follows root way e)
    (each : ∀ n ∈ nodes, n.Fits registry e) :
    ∃ last, registry.Follows root x.way last ∧ x.node.Fits registry last := by
  induction holds generalizing e with
  | here member => exact ⟨e, follows, each _ member⟩
  | @under way nodes n x member _ inside ih =>
      cases each n member with
      | association among step found deeper => exact ih (follows.concat among step found) deeper
      | column => cases inside <;> contradiction

end Holds

mutual

theorem prefix_of_collection (n : FilterNode) {way : List Attribute} {e : Entity} (fits : n.Fits registry e)
    (member : y ∈ (n.entries way).filterMap (·.collection?)) :
    n.item.subject.isAssociation = true ∧ way ++ [n.item.subject] <+: y := by
  match n with
  | ⟨item, children⟩ =>
      unfold entries at member
      cases fits with
      | @association e target a nodes inside step found below =>
          refine ⟨Registry.isAssociation_of_targetOf found, ?_⟩
          rw [List.filterMap_cons] at member
          split at member
          next =>
            obtain ⟨m, -, -, start⟩ := prefix_of_collectionOfAll children below member
            exact (List.prefix_append _ _).trans start
          next z collection =>
            rcases List.mem_cons.mp member with rfl | later
            · unfold Entry.collection? at collection
              split at collection
              · cases collection
                exact List.prefix_refl _
              · contradiction
            · obtain ⟨m, -, -, start⟩ := prefix_of_collectionOfAll children below later
              exact (List.prefix_append _ _).trans start
      | @column e a predicate inside step isColumn =>
          simp [entriesOfAll, Entry.collection?, Attribute.isCollection_of_column isColumn] at member

theorem prefix_of_collectionOfAll (nodes : List FilterNode) {way : List Attribute} {e : Entity}
    (fits : ∀ n ∈ nodes, n.Fits registry e) (member : y ∈ (entriesOfAll way nodes).filterMap (·.collection?)) :
    ∃ n ∈ nodes, n.item.subject.isAssociation = true ∧ way ++ [n.item.subject] <+: y := by
  match nodes with
  | [] => simp [entriesOfAll] at member
  | n :: rest =>
      unfold entriesOfAll at member
      rw [List.filterMap_append] at member
      rcases List.mem_append.mp member with here | later
      · exact ⟨n, List.mem_cons_self .., prefix_of_collection n (fits n (List.mem_cons_self ..)) here⟩
      · obtain ⟨m, inside, leads⟩ :=
          prefix_of_collectionOfAll rest (fun m among => fits m (List.mem_cons_of_mem _ among)) later
        exact ⟨m, List.mem_cons_of_mem _ inside, leads⟩

end

mutual

theorem nodup_collections (n : FilterNode) (way : List Attribute) {e : Entity} (fits : n.Fits registry e)
    (alone : AreAlone n.children) : ((n.entries way).filterMap (·.collection?)).Nodup := by
  match n with
  | ⟨item, children⟩ =>
      unfold entries
      cases fits with
      | @association e target a nodes inside step found below =>
          have deeper := nodup_collectionsOfAll children (way ++ [a]) below alone
          rw [List.filterMap_cons]
          split
          next => exact deeper
          next z collection =>
            refine List.nodup_cons.mpr ⟨fun again => ?_, deeper⟩
            unfold Entry.collection? at collection
            split at collection
            · cases collection
              obtain ⟨m, -, -, start⟩ := prefix_of_collectionOfAll children below again
              have longer := start.length_le
              simp at longer
            · contradiction
      | column => rw [List.filterMap_cons]; split <;> simp [entriesOfAll]

theorem nodup_collectionsOfAll (nodes : List FilterNode) (way : List Attribute) {e : Entity}
    (fits : ∀ n ∈ nodes, n.Fits registry e) (alone : AreAlone nodes) :
    ((entriesOfAll way nodes).filterMap (·.collection?)).Nodup := by
  match nodes with
  | [] => simp [entriesOfAll]
  | n :: rest =>
      unfold entriesOfAll
      rw [List.filterMap_append, List.nodup_append]
      cases alone with
      | mk apart children =>
          rw [List.map_cons, List.pairwise_cons] at apart
          have others (m : FilterNode) (among : m ∈ rest) : m.Fits registry e := fits m (List.mem_cons_of_mem _ among)
          have first := fits n (List.mem_cons_self ..)
          refine ⟨nodup_collections n way first (children n (List.mem_cons_self ..)), nodup_collectionsOfAll rest way
            others ⟨apart.2, fun m among => children m (List.mem_cons_of_mem _ among)⟩, fun y here z there same => ?_⟩
          obtain ⟨isAssociation, start⟩ := prefix_of_collection n first here
          obtain ⟨m, among, -, other⟩ := prefix_of_collectionOfAll rest others (same ▸ there)
          have equal := (List.prefix_of_prefix_length_le start other (by simp)).eq_of_length (by simp)
          have subject : n.item.subject = m.item.subject := by simpa using equal
          have column := apart.1 _ (List.mem_map.mpr ⟨m, among, rfl⟩) (congrArg Attribute.id subject)
          rw [isAssociation] at column
          contradiction

end

end FilterNode

namespace Branch

theorem exists_of_further {c : Branch} (member : c ∈ b.further) :
    ∃ x, FilterNode.Holds b.way b.nodes x ∧ x.node.item.subject.isCollection = true ∧
      c = ⟨x.way ++ [x.node.item.subject], x.node.children⟩ := by
  obtain ⟨x, inside, begins⟩ := List.mem_filterMap.mp member
  obtain ⟨way, collection, rfl⟩ := Option.map_eq_some_iff.mp begins
  unfold Entry.collection? at collection
  split at collection
  next kind =>
    cases collection
    exact ⟨x, FilterNode.holds_of_standingsOfAll b.nodes inside, kind, rfl⟩
  next => contradiction

theorem depth_further {c : Branch} (member : c ∈ b.further) :
    FilterNode.depthOfAll c.nodes < FilterNode.depthOfAll b.nodes := by
  obtain ⟨x, holds, -, rfl⟩ := exists_of_further member
  have deeper := holds.depth_le
  rw [FilterNode.depth_children] at deeper
  exact deeper

theorem within_further (levels : Nat) (branches : List Branch) :
    within levels (branches.flatMap (·.further)) = (within levels branches).flatMap (·.further) := by
  induction levels generalizing branches with
  | zero => rfl
  | succ levels ih => rw [within, within, List.flatMap_append, ih]

theorem entries_perm_within (branches : List Branch) (levels : Nat)
    (deep : ∀ b ∈ branches, FilterNode.depthOfAll b.nodes < levels) :
    (branches.flatMap (·.entries)).Perm ((within levels branches).flatMap fun b => b.standings.map (·.entry)) := by
  induction levels generalizing branches with
  | zero =>
      cases branches with
      | nil => exact .refl _
      | cons b rest => exact absurd (deep b (List.mem_cons_self ..)) (Nat.not_lt_zero _)
  | succ levels ih =>
      have below := ih (branches.flatMap (·.further)) fun c member => by
        obtain ⟨b, inside, further⟩ := List.mem_flatMap.mp member
        have less := depth_further further
        have bound := deep b inside
        omega
      rw [within, List.flatMap_append]
      refine List.Perm.trans ?_ (below.append_left _)
      clear ih below deep
      induction branches with
      | nil => exact .refl _
      | cons b rest ih =>
          simp only [List.flatMap_cons, List.flatMap_append]
          refine ((FilterNode.entriesOfAll_perm b.way b.nodes).append ih).trans ?_
          rw [List.append_assoc, List.append_assoc]
          exact (List.perm_append_comm_assoc _ _ _).append_left _

def IsRooted (registry : Registry) (root : Entity) (b : Branch) : Prop :=
  innermost b.way = b.way ∧ ∃ e, registry.Follows root b.way e ∧ ∀ n ∈ b.nodes, n.Fits registry e

theorem IsRooted.further {c : Branch} (rooted : b.IsRooted registry root) (member : c ∈ b.further) :
    c.IsRooted registry root := by
  obtain ⟨-, e, follows, fits⟩ := rooted
  obtain ⟨x, holds, collection, rfl⟩ := exists_of_further member
  obtain ⟨last, leads, fit⟩ := holds.fits follows fits
  obtain ⟨target, found, below⟩ := fit.leads (Attribute.isAssociation_of_isCollection collection)
  exact ⟨innermost_of_collection collection, target, leads.concat fit.member fit.step found, below⟩

theorem IsRooted.within (rooted : ∀ b ∈ branches, b.IsRooted registry root) :
    ∀ b ∈ within levels branches, b.IsRooted registry root := by
  induction levels generalizing branches with
  | zero => simp [Branch.within]
  | succ levels ih =>
      intro b member
      rcases List.mem_append.mp member with here | deeper
      · exact rooted b here
      · refine ih (fun c inside => ?_) b deeper
        obtain ⟨b, among, further⟩ := List.mem_flatMap.mp inside
        exact (rooted b among).further further

theorem further_ways (b : Branch) : b.further.map (·.way) = (b.standings.map (·.entry)).filterMap (·.collection?) := by
  unfold further ofStanding?
  rw [List.map_filterMap, List.filterMap_map]
  refine List.filterMap_congr fun x _ => ?_
  rw [Function.comp_apply, Option.map_map]
  exact Option.map_id'

theorem IsRooted.innermost_eq (rooted : b.IsRooted registry root) (member : x ∈ b.standings) :
    innermost x.way = b.way :=
  (FilterNode.holds_of_standingsOfAll b.nodes member).innermost_eq.trans rooted.1

end Branch

namespace FilterTree.IsOf

variable {requests : List Request} {t : FilterTree} {item : FilterItem}

theorem rooted (isOf : t.IsOf registry requests) : ∀ b ∈ t.branches, b.IsRooted registry t.root := by
  refine Branch.IsRooted.within fun b member => ?_
  rw [List.mem_singleton.mp member]
  exact ⟨rfl, t.root, .nil, isOf.fits⟩

theorem entries_perm (t : FilterTree) :
    (FilterNode.entriesOfAll [] t.nodes).Perm (t.branches.flatMap fun b => b.standings.map (·.entry)) := by
  have all := Branch.entries_perm_within [⟨[], t.nodes⟩] (FilterNode.depthOfAll t.nodes + 2) (by simp)
  simpa [Branch.entries, FilterTree.branches] using all

theorem nodup_ways (isOf : t.IsOf registry requests) : (t.branches.map (·.way)).Nodup := by
  have all := Branch.entries_perm_within [⟨[], t.nodes⟩] (FilterNode.depthOfAll t.nodes + 1) (by simp)
  have apart := FilterNode.nodup_collectionsOfAll t.nodes [] isOf.fits isOf.alone
  rw [FilterTree.branches, Branch.within, Branch.within_further, List.map_append, List.map_singleton,
    List.singleton_append, List.nodup_cons]
  constructor
  · intro root
    obtain ⟨c, member, empty⟩ := List.mem_map.mp root
    obtain ⟨b, -, further⟩ := List.mem_flatMap.mp member
    obtain ⟨x, -, -, rfl⟩ := Branch.exists_of_further further
    simp at empty
  · rw [List.map_flatMap]
    refine (List.Perm.nodup_iff ?_).mp apart
    refine (List.Perm.filterMap _ (by simpa [Branch.entries] using all)).trans (.of_eq ?_)
    rw [List.filterMap_flatMap]
    exact congrArg (List.flatMap · _) (funext fun b => (b.further_ways).symm)

/-- What is asked for behind a way stands in the branch that the innermost collection begins. -/
theorem exists_standing (isOf : t.IsOf registry requests)
    (member : ⟨way, item⟩ ∈ FilterNode.entriesOfAll [] t.nodes) :
    ∃ b ∈ t.branches, b.way = innermost way ∧ ∃ x ∈ b.standings, x.entry = ⟨way, item⟩ := by
  obtain ⟨b, inside, standing⟩ := List.mem_flatMap.mp ((entries_perm t).mem_iff.mp member)
  obtain ⟨x, among, entry⟩ := List.mem_map.mp standing
  refine ⟨b, inside, ?_, x, among, entry⟩
  rw [← (isOf.rooted b inside).innermost_eq among]
  exact congrArg (fun y : Entry => innermost y.way) entry

/-- The predicates in a branch are those behind the collection that begins it. -/
theorem tests_perm (isOf : t.IsOf registry requests) (member : b ∈ t.branches) :
    (b.standings.filterMap (·.entry.test?)).Perm
      (((FilterNode.entriesOfAll [] t.nodes).filterMap (·.test?)).filter fun x => innermost x.way = b.way) := by
  have way {c : Branch} (inside : c ∈ t.branches) {x : Test} (test : x ∈ c.standings.filterMap (·.entry.test?)) :
      innermost x.way = c.way := by
    obtain ⟨y, among, held⟩ := List.mem_filterMap.mp test
    obtain ⟨p, -, rfl⟩ := Option.map_eq_some_iff.mp held
    exact (isOf.rooted c inside).innermost_eq among
  have all := ((entries_perm t).filterMap (·.test?)).filter fun x => decide (innermost x.way = b.way)
  rw [List.filterMap_flatMap, List.filter_flatMap] at all
  refine List.Perm.trans (.of_eq ?_) all.symm
  have mapped (c : Branch) : (c.standings.map (·.entry)).filterMap (·.test?) = c.standings.filterMap (·.entry.test?) :=
    List.filterMap_map ..
  simp only [mapped]
  obtain ⟨before, rest, split⟩ := List.append_of_mem member
  have apart := isOf.nodup_ways
  rw [split, List.map_append, List.map_cons, List.nodup_middle, List.nodup_cons] at apart
  have others {branches : List Branch} (among : ∀ c ∈ branches, c ∈ before ∨ c ∈ rest) : (branches.flatMap fun c =>
      (c.standings.filterMap (·.entry.test?)).filter fun x => decide (innermost x.way = b.way)) = [] := by
    rw [List.flatMap_eq_nil_iff]
    intro c inside
    have elsewhere : c.way ≠ b.way := fun same => apart.1 (same ▸ by
      rw [← List.map_append]
      exact List.mem_map_of_mem (List.mem_append.mpr (among c inside)))
    have known : c ∈ t.branches := by
      rw [split, List.mem_append, List.mem_cons]
      exact (among c inside).imp_right .inr
    rw [List.filter_eq_nil_iff]
    intro x test
    rw [way known test, decide_eq_true_iff]
    exact elsewhere
  rw [split, List.flatMap_append, List.flatMap_cons, others fun c => .inl, others fun c => .inr, List.nil_append,
    List.append_nil]
  exact (List.filter_eq_self.mpr fun x test => decide_eq_true (way member test)).symm

end FilterTree.IsOf

end ViewEngine
