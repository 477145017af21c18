import ViewEngine.Proofs.Selection.Nodes

/-!
The collections that statements of their own are made for. Every round lies less deep in the tree than the one before,
so the rounds come to an end, and until then each collection of the tree has had its turn.
-/

namespace ViewEngine

open Compile

namespace Compile

/-- Rounds over what is put down, for as long as there is anything: what comes out in the end, if it comes to an end. -/
inductive RunsOut (setting : Setting) (r : Root) :
    List DeferredCollection → JoinPlan → Nat → Except SchemaError (List SubSelect × JoinPlan) → Prop
  | done (plan : JoinPlan) (next : Nat) : RunsOut setting r [] plan next (.ok ([], plan))
  | fails {deferred : List DeferredCollection} {plan : JoinPlan} {next : Nat} {cause : SchemaError}
      (some : deferred ≠ [])
      (failed : subSelects setting r deferred plan next [] = .error cause) :
      RunsOut setting r deferred plan next (.error cause)
  | round {deferred further : List DeferredCollection} {plan middle : JoinPlan} {next following : Nat}
      {found : List SubSelect} {result : Except SchemaError (List SubSelect × JoinPlan)} (some : deferred ≠ [])
      (made : subSelects setting r deferred plan next [] = .ok (found, middle, following, further))
      (rest : RunsOut setting r further middle following result) :
      RunsOut setting r deferred plan next (result.map fun later => (found ++ later.1, later.2))

variable {registry : Registry} {plan : JoinPlan} {c other : Collected} {collections : List Collected} {x : Reached}
  {levels : Nat}

section Putting

theorem Collected.exists_put (before : List Collected) (c : Collected) :
    ∃ all ∈ put before c, all.path = c.path ∧ c.nodes ⊆ all.nodes := by
  induction before with
  | nil => exact ⟨c, List.mem_singleton_self c, rfl, List.Subset.refl _⟩
  | cons first rest ih =>
      unfold put
      split
      next same => exact ⟨_, List.mem_cons_self .., same, List.subset_append_right _ _⟩
      next =>
        obtain ⟨all, member, found⟩ := ih
        exact ⟨all, List.mem_cons_of_mem _ member, found⟩

theorem Collected.exists_put_of_mem {before : List Collected} (member : other ∈ before) :
    ∃ all ∈ put before c, all.path = other.path ∧ other.nodes ⊆ all.nodes := by
  induction before with
  | nil => contradiction
  | cons first rest ih =>
      unfold put
      rcases List.mem_cons.mp member with rfl | later
      · split
        · exact ⟨_, List.mem_cons_self .., rfl, List.subset_append_left _ _⟩
        · exact ⟨_, List.mem_cons_self .., rfl, List.Subset.refl _⟩
      · split
        · exact ⟨other, List.mem_cons_of_mem _ later, rfl, List.Subset.refl _⟩
        · obtain ⟨all, inside, found⟩ := ih later
          exact ⟨all, List.mem_cons_of_mem _ inside, found⟩

theorem Collected.exists_foldl_put (before : List Collected) (member : c ∈ before ∨ c ∈ collections) :
    ∃ all ∈ collections.foldl put before, all.path = c.path ∧ c.nodes ⊆ all.nodes := by
  induction collections generalizing before c with
  | nil => exact ⟨c, member.resolve_right List.not_mem_nil, rfl, List.Subset.refl _⟩
  | cons first rest ih =>
      have step {d : Collected} (inside : d ∈ put before first) (path : d.path = c.path) (nodes : c.nodes ⊆ d.nodes) :
          ∃ all ∈ rest.foldl put (put before first), all.path = c.path ∧ c.nodes ⊆ all.nodes := by
        obtain ⟨all, among, same, more⟩ := ih _ (.inl inside)
        exact ⟨all, among, same.trans path, List.Subset.trans nodes more⟩
      rcases member with old | new
      · obtain ⟨d, inside, path, nodes⟩ := exists_put_of_mem (c := first) old
        exact step inside path nodes
      · rcases List.mem_cons.mp new with rfl | later
        · obtain ⟨d, inside, path, nodes⟩ := exists_put before c
          exact step inside path nodes
        · exact ih _ (.inr later)

/-- What holds of all that is put down holds of what comes together, if it holds of two put together. -/
theorem Collected.forall_foldl_put {holds : Collected → Prop} {before : List Collected}
    (together : ∀ c other, holds c → holds other → other.path = c.path →
      holds { other with nodes := other.nodes ++ c.nodes })
    (old : ∀ c ∈ before, holds c) (new : ∀ c ∈ collections, holds c) : ∀ c ∈ collections.foldl put before, holds c := by
  have once {before : List Collected} (c : Collected) (old : ∀ other ∈ before, holds other) (one : holds c) :
      ∀ other ∈ put before c, holds other := by
    induction before with
    | nil => exact List.forall_mem_singleton.mpr one
    | cons first rest ih =>
        obtain ⟨here, others⟩ := List.forall_mem_cons.mp old
        unfold put
        split
        next same => exact List.forall_mem_cons.mpr ⟨together c first one here same, others⟩
        next => exact List.forall_mem_cons.mpr ⟨here, ih others⟩
  induction collections generalizing before with
  | nil => exact old
  | cons first rest ih =>
      obtain ⟨one, others⟩ := List.forall_mem_cons.mp new
      exact ih (once first old one) others

end Putting

section Levels

theorem Collected.isReached (member : x ∈ c.reached registry plan) : ∃ target,
    registry.targetOf c.subject = .ok target ∧
      IsReached registry plan [target] (plan.tableAt c.path c.subject) c.path c.nodes x := by
  unfold Collected.reached at member
  split at member
  next target leads => exact ⟨target, leads, mem_reachedOfAll_iff.mp member⟩
  next => contradiction

theorem mem_filterMap_collected {reached : List Reached} : c ∈ reached.filterMap (·.collected?) ↔
    ∃ x ∈ reached, x.isCollection = true ∧ c = ⟨x.path, x.subject, x.children⟩ := by
  have collected (x : Reached) :
      x.collected? = some c ↔ x.isCollection = true ∧ c = ⟨x.path, x.subject, x.children⟩ := by
    unfold Reached.collected?
    split
    next collection =>
      exact ⟨fun same => ⟨collection, (Option.some.inj same).symm⟩, fun found => congrArg some found.2.symm⟩
    next single => exact ⟨fun none => by contradiction, fun found => absurd found.1 single⟩
  simp only [List.mem_filterMap, collected]

theorem depth_foldl_put {depth : Nat} (deep : ∀ c ∈ collections, FilterNode.depthOfAll c.nodes < depth) :
    ∀ c ∈ collections.foldl Collected.put [], FilterNode.depthOfAll c.nodes < depth := by
  have together (nodes others : List FilterNode) : FilterNode.depthOfAll (nodes ++ others) =
      max (FilterNode.depthOfAll nodes) (FilterNode.depthOfAll others) := by
    induction nodes with
    | nil => simp [FilterNode.depthOfAll]
    | cons n rest ih => rw [List.cons_append, FilterNode.depthOfAll, ih, FilterNode.depthOfAll, Nat.max_assoc]
  refine Collected.forall_foldl_put (fun c other one two _ => ?_) (by simp) deep
  rw [together]
  exact Nat.max_lt.mpr ⟨two, one⟩

theorem depth_below {depth : Nat} (deep : ∀ c ∈ collections, FilterNode.depthOfAll c.nodes ≤ depth) :
    ∀ c ∈ collectedBelow registry plan collections, FilterNode.depthOfAll c.nodes < depth := by
  refine depth_foldl_put fun c member => ?_
  obtain ⟨d, inside, below⟩ := List.mem_flatMap.mp member
  obtain ⟨x, reached, -, rfl⟩ := mem_filterMap_collected.mp below
  obtain ⟨target, -, reached⟩ := d.isReached reached
  exact Nat.lt_of_lt_of_le reached.depth_lt (deep d inside)

theorem exists_further (deep : ∀ c ∈ collections, FilterNode.depthOfAll c.nodes < levels)
    (member : c ∈ collectedWithin registry plan levels collections) (reached : x ∈ c.reached registry plan)
    (collection : x.isCollection = true) :
    ∃ d ∈ collectedWithin registry plan levels collections, d.path = x.path ∧ x.children ⊆ d.nodes := by
  induction levels generalizing collections with
  | zero => contradiction
  | succ levels ih =>
      have less : ∀ c ∈ collectedBelow registry plan collections, FilterNode.depthOfAll c.nodes < levels :=
        depth_below fun c member => Nat.le_of_lt_succ (deep c member)
      rw [collectedWithin] at member ⊢
      rcases List.mem_append.mp member with here | later
      · have putDown : (⟨x.path, x.subject, x.children⟩ : Collected) ∈
            collections.flatMap fun c => (c.reached registry plan).filterMap (·.collected?) :=
          List.mem_flatMap.mpr ⟨c, here, mem_filterMap_collected.mpr ⟨x, reached, collection, rfl⟩⟩
        obtain ⟨d, inside, path, nodes⟩ := Collected.exists_foldl_put [] (.inr putDown)
        have isBelow : d ∈ collectedBelow registry plan collections := inside
        refine ⟨d, List.mem_append_right _ ?_, path, nodes⟩
        cases levels with
        | zero => exact absurd (less d isBelow) (Nat.not_lt_zero _)
        | succ levels =>
            rw [collectedWithin]
            exact List.mem_append_left _ isBelow
      · obtain ⟨d, inside, found⟩ := ih less later
        exact ⟨d, List.mem_append_right _ inside, found⟩

theorem forall_collectedWithin {holds : Collected → Prop}
    (below : ∀ collections, (∀ c ∈ collections, holds c) → ∀ c ∈ collectedBelow registry plan collections, holds c)
    (first : ∀ c ∈ collections, holds c) : ∀ c ∈ collectedWithin registry plan levels collections, holds c := by
  induction levels generalizing collections with
  | zero => simp [collectedWithin]
  | succ levels ih =>
      rw [collectedWithin]
      exact List.forall_mem_append.mpr ⟨first, ih (below _ first)⟩

end Levels

section Rounds

variable {setting : Setting} {r : Root} {deferred : List DeferredCollection} {t : FilterTree} {last : State}

theorem rounds_runsOut (deep : ∀ c ∈ deferred, FilterNode.depthOfAll c.nodes < levels) (plan : JoinPlan)
    (next : Nat) : RunsOut setting r deferred plan next (rounds setting r levels deferred plan next) := by
  induction levels generalizing deferred plan next with
  | zero =>
      obtain rfl := List.eq_nil_iff_forall_not_mem.mpr fun c member => Nat.not_lt_zero _ (deep c member)
      exact .done plan next
  | succ levels ih =>
      cases empty : deferred.isEmpty with
      | true =>
          obtain rfl := List.isEmpty_iff.mp empty
          exact .done plan next
      | false =>
          have some : deferred ≠ [] := List.isEmpty_eq_false_iff.mp empty
          unfold rounds
          rw [empty, if_neg Bool.false_ne_true]
          cases made : subSelects setting r deferred plan next [] with
          | error cause => exact .fails some made
          | ok result =>
              obtain ⟨found, middle, following, further⟩ := result
              obtain ⟨-, serve⟩ := subSelects_serve made
              have putDown : further.map Collected.ofDeferred =
                  collectedBelow setting.registry middle (deferred.map Collected.ofDeferred) :=
                (serve middle (List.prefix_refl _)).2
              have less : ∀ c ∈ further, FilterNode.depthOfAll c.nodes < levels := by
                intro c member
                have inside : Collected.ofDeferred c ∈
                    collectedBelow setting.registry middle (deferred.map Collected.ofDeferred) :=
                  putDown ▸ List.mem_map_of_mem member
                refine depth_below (fun d among => ?_) _ inside
                obtain ⟨e, isDeferred, rfl⟩ := List.mem_map.mp among
                exact Nat.le_of_lt_succ (deep e isDeferred)
              have whole := RunsOut.round some made (ih less middle following)
              simp only [bind, Except.bind]
              cases rest : rounds setting r levels further middle following <;> (rw [rest] at whole; exact whole)

theorem primary_runsOut (succeeded : primary setting r t = .ok last) : RunsOut setting r last.deferred last.plan
    last.nextTable (rounds setting r (FilterNode.depthOfAll t.nodes + 1) last.deferred last.plan last.nextTable) := by
  refine rounds_runsOut (fun c member => ?_) last.plan last.nextTable
  have putDown := (primary_base succeeded (List.prefix_refl last.plan.entries)).2
  refine depth_foldl_put (fun d among => ?_) (Collected.ofDeferred c) (putDown ▸ List.mem_map_of_mem member)
  obtain ⟨x, reached, -, rfl⟩ := mem_filterMap_collected.mp among
  exact Nat.lt_succ_of_lt (mem_reachedOfAll_iff.mp reached).depth_lt

end Rounds

/-- The statements of a view are made in as many rounds as are needed. -/
theorem compile_runsOut {settings : ViewSettings} {dialect : Sql.Dialect} {pointInTime : Option Timestamp} {page : Page}
    {t : FilterTree} {v : CompiledView} (compiled : compile registry settings dialect pointInTime page t = .ok v) :
    ∃ state, primary ⟨registry, pointInTime⟩ (.ofTree settings t) t = .ok state ∧
      RunsOut ⟨registry, pointInTime⟩ (.ofTree settings t) state.deferred state.plan state.nextTable
        (.ok (v.subSelects, v.joinPlan)) := by
  obtain ⟨state, primary, compiled⟩ := bind_eq_ok.mp compiled
  obtain ⟨⟨found, plan⟩, rounds, compiled⟩ := bind_eq_ok.mp compiled
  cases compiled
  refine ⟨state, primary, ?_⟩
  rw [← rounds]
  exact primary_runsOut primary

end Compile

end ViewEngine
