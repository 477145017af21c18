import ViewEngine.Proofs.Compilation.Collected

namespace ViewEngine

open Compile

/-- The names of the columns that tell elements apart. -/
def Entity.elementKeys (e : Entity) : List String :=
  e.identityKeys.map (·.property) ++ (e.version.map (·.opening.property)).toList

/-- Associations are steps of paths. Keys have no dots, and are no associations. -/
structure Compile.Setting.IsKeyed (setting : Setting) (roots : List Entity) : Prop where
  addressable : setting.IsAddressable roots
  keys : ∀ e ∈ setting.registry.all, ∀ key ∈ e.elementKeys,
    '.' ∉ key.toList ∧ ∀ a ∈ e.attributes, a.isAssociation = true → a.property ≠ key

namespace Compile

/-- Properties that lead through associations from the roots to entities, and the collections on the way. -/
inductive Along (registry : Registry) (roots : List Entity) :
    List String → List Entity → List EnclosingCollection → Prop
  | root : Along registry roots [] roots []
  | single {names : List String} {es : List Entity} {outers : List EnclosingCollection} {e target : Entity} {a : Attribute}
      (along : Along registry roots names es outers) (declared : declarer? es a.property = some (e, a))
      (found : registry.targetOf a = .ok target) (single : a.isCollection = false) :
      Along registry roots (names ++ [a.property]) [target] outers
  | collection {names : List String} {es : List Entity} {outers : List EnclosingCollection} {e target : Entity}
      {a : Attribute} {path : String} (along : Along registry roots names es outers)
      (declared : declarer? es a.property = some (e, a)) (found : registry.targetOf a = .ok target)
      (collection : a.isCollection = true) (isPath : Path.properties path = names ++ [a.property]) :
      Along registry roots (names ++ [a.property]) [target] (outers ++ [⟨path, target.elementKeys⟩])

def IsReachable (registry : Registry) (roots : List Entity) (c : DeferredCollection) : Prop :=
  ∃ names es e, Along registry roots names es (c.enclosing.map (·.describe)) ∧
    declarer? es c.subject.property = some (e, c.subject) ∧ c.subject.isCollection = true ∧
    Path.properties c.path = names ++ [c.subject.property]

structure AreReachable (registry : Registry) (roots : List Entity) (allowed : List EnclosingCollection → Prop)
    (deferred : List DeferredCollection) : Prop where
  paths : (deferred.map (·.path)).Nodup
  each : ∀ c ∈ deferred, IsReachable registry roots c ∧ allowed (c.enclosing.map (·.describe))

variable {registry : Registry} {setting : Setting} {roots es others : List Entity} {names front rest : List String}
  {outers inner shorter longer : List EnclosingCollection} {outer : EnclosingCollection} {e target : Entity}
  {a : Attribute} {path above key : String} {allowed : List EnclosingCollection → Prop} {table joined : Nat}
  {state after : State} {item : FilterItem} {children nodes : List FilterNode} {c : DeferredCollection}
  {deferred : List DeferredCollection}

section Along

/-- The last step of a way, if there is one. -/
theorem Along.cases (along : Along registry roots names es outers) :
    (names = [] ∧ es = roots ∧ outers = []) ∨ ∃ earlier before around e a target, names = earlier ++ [a.property] ∧
      Along registry roots earlier before around ∧ declarer? before a.property = some (e, a) ∧
      registry.targetOf a = .ok target ∧ es = [target] ∧
      ((a.isCollection = false ∧ outers = around) ∨ (a.isCollection = true ∧
        ∃ path, Path.properties path = names ∧ outers = around ++ [⟨path, target.elementKeys⟩])) := by
  cases along with
  | root => exact .inl ⟨rfl, rfl, rfl⟩
  | single along declared found single =>
      exact .inr ⟨_, _, _, _, _, _, rfl, along, declared, found, rfl, .inl ⟨single, rfl⟩⟩
  | collection along declared found collection isPath =>
      exact .inr ⟨_, _, _, _, _, _, rfl, along, declared, found, rfl, .inr ⟨collection, _, isPath, rfl⟩⟩

theorem Along.unique (along : Along registry roots names es outers) (again : Along registry roots names others inner) :
    es = others ∧ outers = inner := by
  induction along generalizing others inner with
  | root =>
      rcases again.cases with ⟨-, rfl, rfl⟩ | ⟨earlier, _, _, _, a, _, none, -⟩
      · exact ⟨rfl, rfl⟩
      · simp at none
  | single along declared found single ih =>
      rcases again.cases with ⟨none, -⟩ | ⟨earlier, before, around, e, b, target, same, along', declared', found', rfl, last⟩
      · simp at none
      · obtain ⟨rfl, property⟩ := List.append_inj' same rfl
        obtain ⟨rfl, rfl⟩ := ih along'
        rw [← List.singleton_inj.mp property, declared] at declared'
        cases declared'
        cases found.symm.trans found'
        rcases last with ⟨-, rfl⟩ | ⟨collection, -⟩
        · exact ⟨rfl, rfl⟩
        · rw [single] at collection
          contradiction
  | collection along declared found collection isPath ih =>
      rcases again.cases with ⟨none, -⟩ | ⟨earlier, before, around, e, b, target, same, along', declared', found', rfl, last⟩
      · simp at none
      · obtain ⟨rfl, property⟩ := List.append_inj' same rfl
        obtain ⟨rfl, rfl⟩ := ih along'
        rw [← List.singleton_inj.mp property, declared] at declared'
        cases declared'
        cases found.symm.trans found'
        rcases last with ⟨single, -⟩ | ⟨-, path, isPath', rfl⟩
        · rw [single] at collection
          contradiction
        · rw [Path.eq_of_properties (isPath.trans isPath'.symm)]
          exact ⟨rfl, rfl⟩

theorem Along.start (along : Along registry roots names es outers) (starts : front <+: names) :
    ∃ before around, Along registry roots front before around ∧ around <+: outers := by
  induction along generalizing front with
  | root =>
      rw [List.prefix_nil.mp starts]
      exact ⟨_, _, .root, List.prefix_refl _⟩
  | single along declared found single ih =>
      rcases List.prefix_concat_iff.mp starts with rfl | earlier
      · exact ⟨_, _, .single along declared found single, List.prefix_refl _⟩
      · exact ih earlier
  | collection along declared found collection isPath ih =>
      rcases List.prefix_concat_iff.mp starts with rfl | earlier
      · exact ⟨_, _, .collection along declared found collection isPath, List.prefix_refl _⟩
      · obtain ⟨before, around, there, within⟩ := ih earlier
        exact ⟨before, around, there, within.trans (List.prefix_append _ _)⟩

/-- Each collection on a way is at its path, with the collections before. -/
theorem Along.enclosing (along : Along registry roots names es outers) (through : outers = shorter ++ outer :: longer) :
    ∃ target, Along registry roots (Path.properties outer.path) [target] (shorter ++ [outer]) ∧
      Path.properties outer.path <+: names ∧ outer.keys = target.elementKeys ∧ target ∈ registry.all := by
  induction along generalizing longer with
  | root => simp at through
  | single along declared found single ih =>
      obtain ⟨target, there, starts, keys⟩ := ih through
      exact ⟨target, there, starts.trans (List.prefix_append _ _), keys⟩
  | @collection names es around e target a path along declared found collection isPath ih =>
      rcases List.eq_nil_or_concat' longer with rfl | ⟨before, last, rfl⟩
      · obtain ⟨rfl, same⟩ := List.append_inj' through rfl
        obtain rfl := List.singleton_inj.mp same
        refine ⟨target, ?_, isPath ▸ List.prefix_refl _, rfl, Registry.IsRegistered.mem_of_targetOf found⟩
        rw [isPath]
        exact .collection along declared found collection isPath
      · rw [← List.cons_append, ← List.append_assoc] at through
        obtain ⟨target, there, starts, keys⟩ := ih (List.append_inj' through rfl).1
        exact ⟨target, there, starts.trans (List.prefix_append _ _), keys⟩

theorem Along.agreed (agreed : AreAgreed roots) (along : Along registry roots names es outers) : AreAgreed es := by
  cases along with
  | root => exact agreed
  | single => exact areAgreed_singleton _
  | collection => exact areAgreed_singleton _

theorem Along.known (along : Along registry roots names es outers) : ∀ e ∈ es, e ∈ roots ++ registry.all := by
  have target {e target : Entity} {a : Attribute} (found : registry.targetOf a = .ok target) (member : e ∈ [target]) :
      e ∈ roots ++ registry.all := by
    rw [List.mem_singleton.mp member]
    exact List.mem_append_right _ (Registry.IsRegistered.mem_of_targetOf found)
  cases along with
  | root => exact fun e member => List.mem_append_left _ member
  | single _ _ found => exact fun e => target found
  | collection _ _ found => exact fun e => target found

end Along

section Walk

theorem projectColumns_enclosing {s : Scope} {attributes : List Attribute} :
    (s.projectColumns attributes table path).enclosing = s.enclosing := by
  unfold Scope.projectColumns
  induction attributes generalizing s with
  | nil => rfl
  | cons a rest ih => exact ih.trans Scope.projectColumn_enclosing

theorem projectIdentity_enclosing {s : Scope} : (s.projectIdentity e table path).enclosing = s.enclosing := by
  unfold Scope.projectIdentity
  cases e.version with
  | none => exact projectColumns_enclosing
  | some version => exact Scope.projectColumn_enclosing.trans projectColumns_enclosing

theorem projectJoinSide_enclosing {s : Scope} {columns : List String} :
    (s.projectJoinSide e columns table path).enclosing = s.enclosing :=
  projectColumns_enclosing

structure State.PutsDown (registry : Registry) (roots : List Entity) (allowed : List EnclosingCollection → Prop)
    (state after : State) : Prop where
  enclosing : after.scope.enclosing = state.scope.enclosing
  deferred : AreReachable registry roots allowed state.deferred → AreReachable registry roots allowed after.deferred

namespace State.PutsDown

variable {middle : State}

theorem trans (first : PutsDown registry roots allowed state middle) (second : PutsDown registry roots allowed middle after) :
    PutsDown registry roots allowed state after :=
  ⟨second.enclosing.trans first.enclosing, second.deferred ∘ first.deferred⟩

theorem of_same (enclosing : after.scope.enclosing = state.scope.enclosing) (deferred : after.deferred = state.deferred) :
    PutsDown registry roots allowed state after :=
  ⟨enclosing, fun reachable => deferred ▸ reachable⟩

end State.PutsDown

theorem join_putsDown (joins : state.join setting path a e table = .ok (after, joined)) :
    state.PutsDown registry roots allowed after := by
  obtain ⟨-, entry, -, -, same⟩ := join_planned joins
  rw [same]
  exact .of_same rfl rfl

theorem finishAssociation_putsDown :
    state.PutsDown registry roots allowed (finishAssociation a e target table joined above path state) := by
  refine .of_same ?_ rfl
  dsimp only [finishAssociation, State.mapScope]
  rw [projectJoinSide_enclosing, projectJoinSide_enclosing, projectIdentity_enclosing]

theorem paths_defer : (defer c deferred).map (·.path) =
    if c.path ∈ deferred.map (·.path) then deferred.map (·.path) else deferred.map (·.path) ++ [c.path] := by
  induction deferred with
  | nil => rfl
  | cons d rest ih =>
      unfold Compile.defer
      by_cases same : d.path = c.path
      · simp [same]
      · rw [if_neg same, List.map_cons, ih, List.map_cons]
        by_cases later : c.path ∈ rest.map (·.path)
        · rw [if_pos later, if_pos (List.mem_cons_of_mem _ later)]
        · rw [if_neg later, if_neg (by simp only [List.mem_cons, not_or]; exact ⟨Ne.symm same, later⟩), List.cons_append]

theorem AreReachable.defer (reachable : AreReachable registry roots allowed deferred)
    (one : IsReachable registry roots c) (within : allowed (c.enclosing.map (·.describe))) :
    AreReachable registry roots allowed (defer c deferred) := by
  constructor
  · rw [paths_defer]
    split
    · exact reachable.paths
    next fresh => exact List.nodup_append.mpr ⟨reachable.paths, List.nodup_singleton _, by
        intro path old other new same
        rw [List.mem_singleton.mp new] at same
        exact fresh (same ▸ old)⟩
  · intro d member
    rcases mem_defer member with rfl | old | ⟨other, inside, rfl⟩
    · exact ⟨one, within⟩
    · exact reachable.each d old
    · exact reachable.each other inside

theorem walkCollection_putsDown (along : Along registry roots names es (state.scope.enclosing.map (·.describe)))
    (isPath : Path.properties path = names ++ [a.property]) (declared : declarer? es a.property = some (e, a))
    (collection : a.isCollection = true) (within : allowed (state.scope.enclosing.map (·.describe))) :
    state.PutsDown registry roots allowed (walkCollection children a e table above path state) := by
  refine ⟨projectJoinSide_enclosing, fun reachable => ?_⟩
  have enclosing : (state.mapScope fun s => s.projectJoinSide e (a.joinColumns.map (·.source)) table above).scope.enclosing =
      state.scope.enclosing := projectJoinSide_enclosing
  refine reachable.defer ⟨names, es, e, ?_, declared, collection, isPath⟩ ?_
  · dsimp only
    rw [enclosing]
    exact along
  · dsimp only
    rw [enclosing]
    exact within

theorem walkOrAll_putsDown
    (below : walk setting [target] table path nodes state = .ok after → state.PutsDown registry roots allowed after)
    (succeeded : walkOrAll setting target table path nodes state = .ok after) :
    state.PutsDown registry roots allowed after := by
  rcases walkOrAll_cases succeeded with ⟨-, rfl⟩ | ⟨-, walked⟩
  · exact .of_same projectColumns_enclosing rfl
  · exact below walked

mutual

theorem walk_putsDown (addressable : setting.IsAddressable roots) (nodes : List FilterNode) {names : List String}
    {es : List Entity} {table : Nat} {above : String}
    {state after : State} (along : Along setting.registry roots names es (state.scope.enclosing.map (·.describe)))
    (isPath : Path.properties above = names) (within : allowed (state.scope.enclosing.map (·.describe)))
    (succeeded : walk setting es table above nodes state = .ok after) :
    state.PutsDown setting.registry roots allowed after := by
  -- Induction on the tree, along the way to its nodes.
  match nodes with
  | [] =>
      cases succeeded
      exact .of_same rfl rfl
  | node :: rest =>
      obtain ⟨middle, first, succeeded⟩ := bind_eq_ok.mp succeeded
      have here := walkNode_putsDown addressable node along isPath within first
      rw [← here.enclosing] at along within
      exact here.trans (walk_putsDown addressable rest along isPath within succeeded)

theorem walkNode_putsDown (addressable : setting.IsAddressable roots) (node : FilterNode) {names : List String}
    {es : List Entity} {table : Nat} {above : String}
    {state after : State} (along : Along setting.registry roots names es (state.scope.enclosing.map (·.describe)))
    (isPath : Path.properties above = names) (within : allowed (state.scope.enclosing.map (·.describe)))
    (succeeded : walkNode setting es table above node state = .ok after) :
    state.PutsDown setting.registry roots allowed after := by
  match node with
  | ⟨item, children⟩ =>
      have declares {e : Entity} {a : Attribute} (found : resolve? item es = some (e, a))
          (isAssociation : a.isAssociation = true) : declarer? es a.property = some (e, a) ∧
            Path.properties (Path.child above a.property) = names ++ [a.property] := by
        obtain ⟨member, held, -⟩ := resolve?_eq_some found
        have property : a.property = item.subject.property := by simpa using List.find?_some held
        refine ⟨property ▸ declarer?_of_resolve? (along.agreed addressable.agreed) found isAssociation, ?_⟩
        rw [Path.properties_child above (addressable.steps e (along.known e member) a
          (List.mem_of_find?_eq_some held) isAssociation), isPath]
      cases walkNode_cases succeeded with
      | passed => exact .of_same rfl rfl
      | counted found counts leads joins => exact (join_putsDown joins).trans (.of_same Scope.project_enclosing rfl)
      | collection found plain collection =>
          obtain ⟨declared, further⟩ := declares found (Attribute.isAssociation_of_isCollection collection)
          exact walkCollection_putsDown along further declared collection within
      | column => exact .of_same walkColumn_enclosing walkColumn_plan.2
      | @association e target a reached inside joined found plain single leads joins walked =>
          obtain ⟨declared, further⟩ := declares found (Registry.isAssociation_of_targetOf leads)
          have first : state.PutsDown setting.registry roots allowed reached := join_putsDown joins
          have next := Along.single along declared leads single
          rw [← first.enclosing] at next within
          have second := walkOrAll_putsDown (walk_putsDown addressable children next further within) walked
          exact (first.trans second).trans finishAssociation_putsDown

end

end Walk

section Rounds

variable {r : Root} {plan last : JoinPlan} {next following : Nat} {further collections : List DeferredCollection}
  {s t : SubSelect}
  {found made first : List SubSelect} {level levels : Nat}

def IsServed (registry : Registry) (roots : List Entity) (s : SubSelect) : Prop :=
  ∃ target, Along registry roots (Path.properties s.path) [target] (s.enclosing ++ [⟨s.path, target.elementKeys⟩])

theorem identities_enclosing (outers : List JoinedCollection) (s : Scope) :
    (outers.foldl (fun s outer => s.projectIdentity outer.entity outer.table outer.path) s).enclosing = s.enclosing := by
  induction outers generalizing s with
  | nil => rfl
  | cons outer rest ih => exact (ih _).trans projectIdentity_enclosing

theorem subSelects_paths
    (succeeded : subSelects setting r collections plan next deferred = .ok (found, last, following, further)) :
    found.map (fun s => (s.path, s.enclosing)) = collections.map fun c => (c.path, c.enclosing.map (·.describe)) := by
  induction collections generalizing plan next deferred found with
  | nil =>
      cases succeeded
      rfl
  | cons c rest ih =>
      obtain ⟨⟨first, middle, number, between⟩, firstMade, succeeded⟩ := bind_eq_ok.mp succeeded
      obtain ⟨⟨later, last, final, remaining⟩, laterMade, succeeded⟩ := bind_eq_ok.mp succeeded
      cases succeeded
      obtain ⟨target, reached, table, inside, -, -, -, rfl, rfl, rfl, rfl⟩ := subSelect_cases firstMade
      exact congrArg _ (ih laterMade)

theorem subSelect_served (addressable : setting.IsAddressable roots) (reachable : IsReachable setting.registry roots c)
    (within : ∀ keys, allowed (c.enclosing.map (·.describe) ++ [⟨c.path, keys⟩]))
    (others : AreReachable setting.registry roots allowed deferred)
    (succeeded : subSelect setting r c plan next deferred = .ok (s, last, following, further)) :
    IsServed setting.registry roots s ∧ AreReachable setting.registry roots allowed further := by
  obtain ⟨names, es, e, along, declared, collection, isPath⟩ := reachable
  obtain ⟨target, reached, table, inside, leads, joins, walked, rfl, rfl, rfl, rfl⟩ := subSelect_cases succeeded
  have entered : State.PutsDown setting.registry roots allowed _ reached := join_putsDown joins
  have around : reached.scope.enclosing = c.enclosing := by
    refine entered.enclosing.trans ?_
    rw [Root.identified, identities_enclosing]
    exact Scope.project_enclosing
  have next := Along.collection along declared leads collection isPath
  have there : (reached.scope.enclosing ++ [(⟨c.path, target, table⟩ : JoinedCollection)]).map (·.describe) =
      c.enclosing.map (·.describe) ++ [⟨c.path, target.elementKeys⟩] := by
    rw [around, List.map_append]
    rfl
  refine ⟨⟨target, isPath ▸ next⟩, ?_⟩
  have below : State.PutsDown setting.registry roots allowed _ inside := walkOrAll_putsDown
    (walk_putsDown addressable c.nodes (there ▸ next) isPath (there ▸ within target.elementKeys)) walked
  exact below.deferred (entered.deferred others)

theorem subSelects_served (addressable : setting.IsAddressable roots)
    (reachable : ∀ c ∈ collections, IsReachable setting.registry roots c)
    (within : ∀ c ∈ collections, ∀ keys, allowed (c.enclosing.map (·.describe) ++ [⟨c.path, keys⟩]))
    (others : AreReachable setting.registry roots allowed deferred)
    (succeeded : subSelects setting r collections plan next deferred = .ok (found, last, following, further)) :
    (∀ s ∈ found, IsServed setting.registry roots s) ∧ AreReachable setting.registry roots allowed further := by
  induction collections generalizing plan next deferred found with
  | nil =>
      cases succeeded
      exact ⟨fun s none => absurd none List.not_mem_nil, others⟩
  | cons c rest ih =>
      obtain ⟨⟨first, middle, number, between⟩, firstMade, succeeded⟩ := bind_eq_ok.mp succeeded
      obtain ⟨⟨later, last, final, remaining⟩, laterMade, succeeded⟩ := bind_eq_ok.mp succeeded
      cases succeeded
      obtain ⟨served, others⟩ := subSelect_served addressable (reachable c (List.mem_cons_self ..))
        (within c (List.mem_cons_self ..)) others firstMade
      obtain ⟨allServed, others⟩ := ih (fun d member => reachable d (List.mem_cons_of_mem _ member))
        (fun d member => within d (List.mem_cons_of_mem _ member)) others laterMade
      exact ⟨List.forall_mem_cons.mpr ⟨served, allServed⟩, others⟩

def AreMade (made : List SubSelect) (outers : List EnclosingCollection) : Prop :=
  ∀ shorter outer longer, outers = shorter ++ outer :: longer → ∃ u ∈ made, u.path = outer.path ∧ u.enclosing = shorter

theorem AreMade.mono (areMade : AreMade made outers) (more : made ⊆ found) : AreMade found outers := by
  intro shorter outer longer through
  obtain ⟨u, member, same⟩ := areMade shorter outer longer through
  exact ⟨u, more member, same⟩

theorem AreMade.concat (areMade : AreMade made outers) (member : s ∈ made) (around : s.enclosing = outers)
    (keys : List String) : AreMade made (outers ++ [⟨s.path, keys⟩]) := by
  intro shorter outer longer through
  rcases List.eq_nil_or_concat' longer with rfl | ⟨before, last, rfl⟩
  · obtain ⟨rfl, same⟩ := List.append_inj' through rfl
    obtain rfl := List.singleton_inj.mp same
    exact ⟨s, member, rfl, around⟩
  · rw [← List.cons_append, ← List.append_assoc] at through
    exact areMade shorter outer before (List.append_inj' through rfl).1

structure AreServed (registry : Registry) (roots : List Entity) (made : List SubSelect) (level : Nat)
    (found : List SubSelect) : Prop where
  served : ∀ s ∈ found, IsServed registry roots s ∧ level ≤ s.enclosing.length
  distinct : found.Pairwise fun s t => s.path ≠ t.path
  enclosed : ∀ front s back, found = front ++ s :: back → AreMade (made ++ front) s.enclosing

theorem IsServed.enclosing_eq (served : IsServed registry roots s) (other : IsServed registry roots t)
    (same : s.path = t.path) : s.enclosing = t.enclosing := by
  obtain ⟨target, along⟩ := served
  obtain ⟨_, again⟩ := other
  rw [← same] at again
  exact (List.append_inj' (along.unique again).2 rfl).1

/-- The statements of a round, and those of the rounds further down, which come after them. -/
theorem AreServed.append {later : List SubSelect} (here : ∀ s ∈ first, IsServed registry roots s)
    (levelled : ∀ s ∈ first, s.enclosing.length = level ∧ AreMade made s.enclosing) (paths : (first.map (·.path)).Nodup)
    (below : AreServed registry roots (made ++ first) (level + 1) later) :
    AreServed registry roots made level (first ++ later) where
  served s member := by
    rcases List.mem_append.mp member with inside | further
    · exact ⟨here s inside, Nat.le_of_eq (levelled s inside).1.symm⟩
    · exact ⟨(below.served s further).1, Nat.le_trans (Nat.le_succ level) (below.served s further).2⟩
  distinct := by
    refine List.pairwise_append.mpr ⟨List.pairwise_map.mp paths, below.distinct, fun s inside t further same => ?_⟩
    have equal := (here s inside).enclosing_eq (below.served t further).1 same
    have deeper := (below.served t further).2
    rw [← equal, (levelled s inside).1] at deeper
    exact Nat.not_succ_le_self level deeper
  enclosed front s back through := by
    rcases List.append_eq_append_iff.mp through with ⟨start, rfl, rest⟩ | ⟨stop, rest, through⟩
    · rw [← List.append_assoc]
      exact below.enclosed start s back rest
    · cases stop with
      | nil =>
          have areMade := below.enclosed [] s back (through.symm ▸ rfl)
          rw [List.append_nil] at areMade rest
          rwa [← rest]
      | cons other stop =>
          cases through
          have inside : s ∈ first := rest ▸ List.mem_append_right _ (List.mem_cons_self ..)
          exact (levelled s inside).2.mono (List.subset_append_left _ _)

theorem rounds_served (addressable : setting.IsAddressable roots)
    (reachable : AreReachable setting.registry roots (fun outers => outers.length = level ∧ AreMade made outers) deferred)
    (succeeded : rounds setting r levels deferred plan next = .ok (found, last)) :
    AreServed setting.registry roots made level found := by
  induction levels generalizing deferred plan next found made level with
  | zero =>
      cases succeeded
      exact ⟨by simp, .nil, by simp⟩
  | succ levels ih =>
      unfold rounds at succeeded
      split at succeeded
      next =>
        cases succeeded
        exact ⟨by simp, .nil, by simp⟩
      next =>
        obtain ⟨⟨first, middle, number, between⟩, firstMade, succeeded⟩ := bind_eq_ok.mp succeeded
        obtain ⟨⟨later, last⟩, laterMade, succeeded⟩ := bind_eq_ok.mp succeeded
        cases succeeded
        have each := subSelects_paths firstMade
        have levelled : ∀ s ∈ first, s.enclosing.length = level ∧ AreMade made s.enclosing := by
          intro s member
          obtain ⟨c, inside, same⟩ := List.mem_map.mp (each ▸ List.mem_map_of_mem member)
          obtain ⟨-, around⟩ := Prod.mk.inj same
          exact around ▸ (reachable.each c inside).2
        have within : ∀ c ∈ deferred, ∀ keys,
            (c.enclosing.map (·.describe) ++ [(⟨c.path, keys⟩ : EnclosingCollection)]).length = level + 1 ∧
              AreMade (made ++ first) (c.enclosing.map (·.describe) ++ [⟨c.path, keys⟩]) := by
          intro c member keys
          obtain ⟨s, inside, same⟩ := List.mem_map.mp (each.symm ▸ List.mem_map_of_mem member)
          obtain ⟨isPath, around⟩ := Prod.mk.inj same
          obtain ⟨long, areMade⟩ := (reachable.each c member).2
          refine ⟨by rw [List.length_append, long]; rfl, isPath ▸ ?_⟩
          exact (areMade.mono (List.subset_append_left ..)).concat (List.mem_append_right _ inside) around keys
        have none : AreReachable setting.registry roots
            (fun outers => outers.length = level + 1 ∧ AreMade (made ++ first) outers) ([] : List DeferredCollection) :=
          ⟨List.nodup_nil, fun c member => absurd member List.not_mem_nil⟩
        obtain ⟨served, below⟩ := subSelects_served addressable (fun c member => (reachable.each c member).1) within none
          firstMade
        refine AreServed.append served levelled ?_ (ih below laterMade)
        have paths : first.map (·.path) = deferred.map (·.path) := by
          simpa [Function.comp_def] using congrArg (List.map Prod.fst) each
        exact paths ▸ reachable.paths

end Rounds

end Compile

end ViewEngine
