import ViewEngine.Proofs.Conditions.Filters
import ViewEngine.Proofs.Requests.Branches

namespace ViewEngine

open Sql Compile

/-- The number of the rows at the end of a way: that of the root's table, or of the one that is joined for them. -/
def JoinPlan.tableAlong (plan : JoinPlan) (way : List Attribute) : Nat :=
  (way.getLast?.map (plan.tableAt (Path.along way))).getD 0

def Test.condition (plan : JoinPlan) (x : Test) : Condition :=
  .predicate (x.predicate.expr x.subject.columnType (.columnOf (plan.tableAlong x.way) x.subject.columnName))

def Entity.restrictions (root : Entity) (pointInTime : Option Timestamp) : List Condition :=
  (root.versionConstraint? pointInTime 0).toList.map .predicate ++
    (root.discriminatorConstraint? 0).toList.map .predicate

/-- The collection that begins a branch, as it is put down. -/
def Branch.collected (b : Branch) : Collected :=
  ⟨Path.along b.way, b.way.getLastD default, b.nodes⟩

variable {registry : Registry} {root e : Entity} {way : List Attribute} {nodes : List FilterNode} {n : FilterNode}
  {x : Standing} {b : Branch} {branches : List Branch} {levels : Nat} {plan : JoinPlan} {a : Attribute}

theorem JoinPlan.tableAlong_concat (plan : JoinPlan) (way : List Attribute) (a : Attribute) :
    plan.tableAlong (way ++ [a]) = plan.tableAt (Path.along (way ++ [a])) a := by
  rw [tableAlong, List.getLast?_concat, Option.map_some, Option.getD_some]

def Standing.reached (plan : JoinPlan) (x : Standing) : Reached :=
  ⟨x.node.item, x.node.children, x.node.item.subject, plan.tableAlong x.way,
    Path.along (x.way ++ [x.node.item.subject])⟩

namespace FilterNode.Fits

theorem resolve? (fits : n.Fits registry e) (built : e.IsBuilt) : resolve? n.item [e] = some (e, n.item.subject) := by
  have held := built.property? fits.member
  simp only [Attribute.property] at held
  rw [Compile.resolve?, List.findSome?_singleton, Attribute.property, held, Option.filter_some,
    if_pos (beq_self_eq_true _), Option.map_some]

theorem plain (fits : n.Fits registry e) : n.item.aggregate = none ∧ n.item.outputName = none ∧
    n.item.sortAscending = none := by
  cases fits <;> exact ⟨rfl, rfl, rfl⟩

end FilterNode.Fits

mutual

theorem reachedOf_eq (registered : registry.IsRegistered) (known : root ∈ registry.all) (n : FilterNode)
    {way : List Attribute} {e : Entity} (follows : registry.Follows root way e) (fits : n.Fits registry e) :
    reachedOf registry plan [e] (plan.tableAlong way) (Path.along way) n = (n.standings way).map (·.reached plan) := by
  match n with
  | ⟨item, children⟩ =>
      have resolved := fits.resolve? (registered.built e (follows.known known))
      have plain := fits.plain.1
      unfold reachedOf FilterNode.standings
      rw [resolved]
      dsimp only at plain ⊢
      rw [plain, List.map_cons, ← follows.along_concat]
      refine congrArg _ ?_
      cases collection : item.subject.isCollection with
      | true => rfl
      | false =>
          rw [if_neg Bool.false_ne_true, Option.isSome_none, Bool.or_self, if_neg Bool.false_ne_true]
          cases kind : item.subject.isAssociation with
          | true =>
              obtain ⟨target, found, below⟩ := fits.leads kind
              dsimp only at found
              rw [found, ← plan.tableAlong_concat]
              exact reachedOfAll_eq registered known children (follows.concat fits.member fits.step found) below
          | false =>
              cases fits with
              | association _ _ found =>
                  rw [Registry.isAssociation_of_targetOf found] at kind
                  contradiction
              | column =>
                  split <;> rfl

theorem reachedOfAll_eq (registered : registry.IsRegistered) (known : root ∈ registry.all) (nodes : List FilterNode)
    {way : List Attribute} {e : Entity} (follows : registry.Follows root way e)
    (fits : ∀ n ∈ nodes, n.Fits registry e) :
    reachedOfAll registry plan [e] (plan.tableAlong way) (Path.along way) nodes =
      (FilterNode.standingsOfAll way nodes).map (·.reached plan) := by
  match nodes with
  | [] => rfl
  | n :: rest =>
      unfold reachedOfAll FilterNode.standingsOfAll
      rw [reachedOf_eq registered known n follows (fits n (List.mem_cons_self ..)),
        reachedOfAll_eq registered known rest follows fun m later => fits m (List.mem_cons_of_mem _ later),
        List.map_append]

end

namespace Branch

theorem IsRooted.reached (rooted : b.IsRooted registry root) (registered : registry.IsRegistered)
    (known : root ∈ registry.all) (collection : b.way ≠ []) :
    b.collected.reached registry plan = b.standings.map (·.reached plan) := by
  obtain ⟨-, e, follows, fits⟩ := rooted
  obtain ⟨way, nodes⟩ := b
  obtain ⟨way, a, rfl⟩ := (List.eq_nil_or_concat' way).resolve_left collection
  have target := follows.targetOf_last
  simp only [Collected.reached, collected, List.getLastD_concat, target]
  rw [← JoinPlan.tableAlong_concat]
  exact reachedOfAll_eq registered known nodes follows fits

theorem IsRooted.further_collected (rooted : b.IsRooted registry root) (plan : JoinPlan) :
    (b.standings.map (·.reached plan)).filterMap (·.collected?) = b.further.map (·.collected) := by
  obtain ⟨-, e, follows, fits⟩ := rooted
  rw [Branch.further, List.filterMap_map, List.map_filterMap]
  refine List.filterMap_congr fun x member => ?_
  obtain ⟨last, -, fit⟩ := (FilterNode.holds_of_standingsOfAll b.nodes member).fits follows fits
  have plain := fit.plain.1
  unfold ofStanding? Entry.collection? Standing.entry
  simp only [Function.comp_apply, Reached.collected?, Reached.isCollection, Standing.reached, plain, Option.isNone_none,
    Bool.true_and]
  split <;> simp [collected]

end Branch

theorem Compile.Collected.foldl_put (collections before : List Collected)
    (apart : ((before ++ collections).map (·.path)).Nodup) : collections.foldl put before = before ++ collections := by
  induction collections generalizing before with
  | nil => exact (List.append_nil _).symm
  | cons c rest ih =>
      have single (others : List Collected) (absent : ∀ other ∈ others, other.path ≠ c.path) :
          put others c = others ++ [c] := by
        induction others with
        | nil => rfl
        | cons other others ih =>
            rw [put, if_neg (absent other (List.mem_cons_self ..)),
              ih fun x later => absent x (List.mem_cons_of_mem _ later)]
            rfl
      have absent (other : Collected) (inside : other ∈ before) : other.path ≠ c.path := by
        rw [List.map_append, List.nodup_append] at apart
        exact apart.2.2 _ (List.mem_map_of_mem inside) _ (List.mem_map_of_mem (List.mem_cons_self ..))
      rw [List.foldl_cons, single before absent, ih _ (by simpa using apart), List.append_assoc, List.singleton_append]

namespace Branch

variable {branches : List Branch}

theorem nodup_paths (built : registry.AreBuilt) (known : root ∈ registry.all)
    (rooted : ∀ b ∈ branches, b.IsRooted registry root) (apart : (branches.map (·.way)).Nodup) :
    ((branches.map (·.collected)).map (·.path)).Nodup := by
  have paths : (branches.map (·.collected)).map (·.path) = (branches.map (·.way)).map Path.along := by
    simp [collected]
  rw [paths]
  refine List.Nodup.map_on (fun way inside other among same => ?_) apart
  obtain ⟨b, isBranch, rfl⟩ := List.mem_map.mp inside
  obtain ⟨c, isOther, rfl⟩ := List.mem_map.mp among
  obtain ⟨-, e, follows, -⟩ := rooted b isBranch
  obtain ⟨-, e', leads, -⟩ := rooted c isOther
  exact (follows.eq_of_along built known leads same).1

theorem collectedWithin_eq (registered : registry.IsRegistered) (known : root ∈ registry.all)
    (rooted : ∀ b ∈ branches, b.IsRooted registry root) (collections : ∀ b ∈ branches, b.way ≠ [])
    (apart : ((within levels branches).map (·.way)).Nodup) (plan : JoinPlan) :
    collectedWithin registry plan levels (branches.map (·.collected)) = (within levels branches).map (·.collected) := by
  induction levels generalizing branches with
  | zero => rfl
  | succ levels ih =>
      have roots : ∀ c ∈ branches.flatMap (·.further), c.IsRooted registry root := fun c member => by
        obtain ⟨b, inside, further⟩ := List.mem_flatMap.mp member
        exact (rooted b inside).further further
      have ways : ∀ c ∈ branches.flatMap (·.further), c.way ≠ [] := fun c member => by
        obtain ⟨b, -, further⟩ := List.mem_flatMap.mp member
        obtain ⟨x, -, -, rfl⟩ := exists_of_further further
        simp
      have putDown : ((branches.map (·.collected)).flatMap fun c => (c.reached registry plan).filterMap (·.collected?)) =
          (branches.flatMap (·.further)).map (·.collected) := by
        rw [List.flatMap_map, List.map_flatMap]
        refine List.flatMap_congr fun b inside => ?_
        rw [(rooted b inside).reached registered known (collections b inside), (rooted b inside).further_collected]
      rw [within, List.map_append, List.nodup_append] at apart
      rw [within, collectedWithin, List.map_append, collectedBelow, putDown]
      cases levels with
      | zero => rfl
      | succ levels =>
          have next := apart.2.1
          rw [within, List.map_append, List.nodup_append] at next
          rw [Collected.foldl_put _ [] (nodup_paths registered.built known roots next.1), List.nil_append]
          exact congrArg _ (ih roots ways apart.2.1)

end Branch

section Conditions

variable {r : Root} {setting : Setting} {s : Statement} {reached : List Reached}

theorem Compile.foldl_onto_conditions (plan : JoinPlan) (reached : List Reached) (s : Statement) :
    (reached.foldl (Reached.onto plan) s).conditions =
      s.conditions ++ (reached.filterMap (·.leaf?)).map fun l => .predicate l.expr := by
  induction reached generalizing s with
  | nil => exact (List.append_nil _).symm
  | cons x rest ih =>
      rw [List.foldl_cons, ih, onto_conditions, List.append_assoc, List.filterMap_cons]
      cases x.leaf? <;> rfl

theorem FilterNode.Fits.leaf_condition (fits : x.node.Fits registry e) (built : e.IsBuilt) :
    (x.reached plan).leaf?.map (fun l => Condition.predicate l.expr) = x.entry.test?.map (·.condition plan) := by
  obtain ⟨way, item, children⟩ := x
  cases fits with
  | @association e target a =>
      have untested : (Standing.reached plan ⟨way, ⟨{ subject := a }, children⟩⟩).leaf? = none := by
        unfold Reached.leaf?
        split <;> rfl
      rw [untested]
      rfl
  | @column e a predicate member step isColumn =>
      obtain ⟨column, stored⟩ := Option.isSome_iff_exists.mp (built.isStored member isColumn)
      cases predicate <;> simp [Standing.reached, Reached.leaf?, Reached.isColumn, Standing.entry, Entry.test?, isColumn,
        Test.condition, Leaf.expr, Attribute.columnName, stored]

/-- The statement of a branch is restricted by the predicates in the branch, and by what holds of all root rows. -/
theorem Branch.IsRooted.conditions (rooted : b.IsRooted registry root) (registered : registry.IsRegistered)
    (known : root ∈ registry.all) (single : r.others = [])
    (writes : r.Writes setting plan (b.standings.map (·.reached plan)) s) : s.conditions =
      (b.standings.filterMap (·.entry.test?)).map (·.condition plan) ++ r.root.restrictions setting.pointInTime := by
  obtain ⟨begun, selected, grouping, ⟨-, none⟩, rfl⟩ := writes
  obtain ⟨-, e, follows, fits⟩ := rooted
  rw [single, Entity.constrainRoot_single]
  dsimp only
  rw [foldl_onto_conditions, none, List.nil_append, Entity.restrictions, List.filterMap_map, List.map_filterMap,
    List.map_filterMap]
  refine congrArg (· ++ _) (List.filterMap_congr fun x member => ?_)
  obtain ⟨last, leads, fit⟩ := (FilterNode.holds_of_standingsOfAll b.nodes member).fits follows fits
  exact fit.leaf_condition (registered.built last (leads.known known))

end Conditions

namespace FilterTree.IsOf

variable {requests : List Request} {t : FilterTree}

theorem reachedFrom_eq (isOf : t.IsOf registry requests) (registered : registry.IsRegistered) (plan : JoinPlan) :
    reachedFrom registry plan t = (Branch.standings ⟨[], t.nodes⟩).map (·.reached plan) := by
  rw [reachedFrom, roots, isOf.single]
  exact reachedOfAll_eq registered isOf.known t.nodes .nil isOf.fits

theorem collectedFrom_eq (isOf : t.IsOf registry requests) (registered : registry.IsRegistered) (plan : JoinPlan) :
    collectedFrom registry plan t = t.branches.tail.map (·.collected) := by
  have rooted := isOf.rooted
  have apart := isOf.nodup_ways
  rw [FilterTree.branches, Branch.within] at rooted apart ⊢
  rw [List.singleton_append, List.flatMap_singleton] at rooted apart ⊢
  rw [List.map_cons, List.nodup_cons] at apart
  have first := rooted _ (List.mem_cons_self ..)
  have further (c : Branch) (member : c ∈ (Branch.further ⟨[], t.nodes⟩)) : c.IsRooted registry t.root :=
    first.further member
  rw [collectedFrom, isOf.reachedFrom_eq registered, first.further_collected, List.tail_cons]
  rw [Collected.foldl_put _ [] (Branch.nodup_paths registered.built isOf.known further ?_), List.nil_append]
  · refine Branch.collectedWithin_eq registered isOf.known further (fun c member => ?_) apart.2 plan
    obtain ⟨x, -, -, rfl⟩ := Branch.exists_of_further member
    simp
  · have next := apart.2
    rw [Branch.within, List.map_append, List.nodup_append] at next
    exact next.1

end FilterTree.IsOf

end ViewEngine
