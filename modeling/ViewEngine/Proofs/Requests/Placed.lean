import ViewEngine.Proofs.Compilation.Joined
import ViewEngine.Proofs.Isolation.Columns
import ViewEngine.Proofs.Requests.Collections

namespace ViewEngine

open Sql Compile

def JoinPlan.Knows (plan : JoinPlan) (way : List Attribute) : Prop :=
  ∀ a, way.getLast? = some a → (plan.find? (Path.along way) a.id).isSome = true

namespace Compile

structure IsAt (setting : Setting) (r : Root) (plan : JoinPlan) (way : List Attribute) (e : Entity) (table : Nat)
    (path : String) : Prop where
  follows : setting.registry.Follows r.root way e
  known : plan.Knows way
  table : plan.tableAlong way = table
  path : Path.along way = path

/-- A projection of the root's key, or of a column of an entity where it stands. -/
inductive Projection.IsPlaced (setting : Setting) (r : Root) (plan : JoinPlan) : Projection → Prop
  | key (expr : Expr) : IsPlaced setting r plan ⟨expr, ⟨r.keyAlias, none, .rootKey⟩⟩
  | column {way : List Attribute} {e : Entity} {table : Nat} {path column : String} {a : Attribute}
      (stands : IsAt setting r plan way e table path) (member : a ∈ e.attributes) (stored : a.column = some column) :
      IsPlaced setting r plan ⟨.columnOf table column, ⟨Path.child path a.property, some a, .value⟩⟩

structure JoinedCollection.IsPlaced (setting : Setting) (r : Root) (plan : JoinPlan) (c : JoinedCollection) : Prop where
  stands : ∃ way, IsAt setting r plan way c.entity c.table c.path

structure Scope.IsPlaced (setting : Setting) (r : Root) (plan : JoinPlan) (s : Scope) : Prop where
  inStep : s.IsInStep
  projections : ∀ p ∈ s.projections, p.IsPlaced setting r plan
  labels : (s.projections.map (·.binding.label)).Nodup
  enclosing : ∀ c ∈ s.enclosing, c.IsPlaced setting r plan

structure DeferredCollection.IsPlaced (setting : Setting) (r : Root) (plan : JoinPlan) (c : DeferredCollection) :
    Prop where
  enclosing : ∀ outer ∈ c.enclosing, outer.IsPlaced setting r plan
  starts : ∃ way above, IsAt setting r plan way c.sourceEntity c.sourceTable above ∧
    c.path = Path.along (way ++ [c.subject])
  member : c.subject ∈ c.sourceEntity.attributes
  step : IsStep c.subject.property
  collection : c.subject.isCollection = true
  nodes : ∃ target, setting.registry.targetOf c.subject = .ok target ∧ ∀ n ∈ c.nodes, n.Fits setting.registry target

structure State.IsPlaced (setting : Setting) (r : Root) (state : State) : Prop where
  scope : state.scope.IsPlaced setting r state.plan
  deferred : ∀ c ∈ state.deferred, c.IsPlaced setting r state.plan
  resolved : state.IsResolved setting.registry

/-- The rows at the end of a way are joined in the statement at hand. -/
def State.Reaches (state : State) (way : List Attribute) : Prop :=
  ∀ a, way.getLast? = some a → ∃ j, state.plan.find? (Path.along way) a.id = some j ∧
    j.join ∈ state.scope.statement.joins

structure State.Reads (state : State) (way : List Attribute) (a : Attribute) : Prop where
  labelled : ∃ p ∈ state.scope.projections, p.binding.label = Path.along (way ++ [a])
  reaches : state.Reaches way

variable {setting : Setting} {r : Root} {plan further : JoinPlan} {way : List Attribute} {e target : Entity}
  {table joined : Nat} {path above : String} {a : Attribute} {p : Projection} {s middle after : Scope}
  {c : DeferredCollection} {deferred : List DeferredCollection}

section Plans

theorem knows_of_prefix (known : plan.Knows way) (grown : plan.entries <+: further.entries) :
    further.Knows way ∧ further.tableAlong way = plan.tableAlong way := by
  unfold JoinPlan.Knows JoinPlan.tableAlong JoinPlan.tableAt at *
  cases last : way.getLast? with
  | none => simp
  | some a =>
      obtain ⟨entry, found⟩ := Option.isSome_iff_exists.mp (known a last)
      have again := find?_of_prefix found grown
      refine ⟨fun b same => ?_, ?_⟩
      · cases same
        rw [again]
        rfl
      · simp [found, again]

theorem IsAt.mono (stands : IsAt setting r plan way e table path) (grown : plan.entries <+: further.entries) :
    IsAt setting r further way e table path := by
  obtain ⟨known, same⟩ := knows_of_prefix stands.known grown
  exact ⟨stands.follows, known, same.trans stands.table, stands.path⟩

theorem Projection.IsPlaced.mono (placed : p.IsPlaced setting r plan) (grown : plan.entries <+: further.entries) :
    p.IsPlaced setting r further := by
  cases placed with
  | key expr => exact .key expr
  | column stands member stored => exact .column (stands.mono grown) member stored

theorem JoinedCollection.IsPlaced.mono {c : JoinedCollection} (placed : c.IsPlaced setting r plan)
    (grown : plan.entries <+: further.entries) : c.IsPlaced setting r further :=
  ⟨placed.stands.imp fun _ stands => stands.mono grown⟩

theorem Scope.IsPlaced.mono (placed : s.IsPlaced setting r plan) (grown : plan.entries <+: further.entries) :
    s.IsPlaced setting r further where
  inStep := placed.inStep
  projections p member := (placed.projections p member).mono grown
  labels := placed.labels
  enclosing c member := (placed.enclosing c member).mono grown

theorem DeferredCollection.IsPlaced.mono (placed : c.IsPlaced setting r plan)
    (grown : plan.entries <+: further.entries) : c.IsPlaced setting r further where
  enclosing outer member := (placed.enclosing outer member).mono grown
  starts := by
    obtain ⟨way, above, stands, path⟩ := placed.starts
    exact ⟨way, above, stands.mono grown, path⟩
  member := placed.member
  step := placed.step
  collection := placed.collection
  nodes := placed.nodes

end Plans

section Projections

structure Scope.Extends (setting : Setting) (r : Root) (plan : JoinPlan) (s after : Scope) : Prop where
  placed : after.IsPlaced setting r plan
  kept : s.projections ⊆ after.projections
  joins : after.statement.joins = s.statement.joins

theorem Scope.Extends.refl (placed : s.IsPlaced setting r plan) : s.Extends setting r plan s :=
  ⟨placed, List.Subset.refl _, rfl⟩

theorem Scope.Extends.trans (first : s.Extends setting r plan middle) (second : middle.Extends setting r plan after) :
    s.Extends setting r plan after :=
  ⟨second.placed, List.Subset.trans first.kept second.kept, second.joins.trans first.joins⟩

theorem project_extends (placed : s.IsPlaced setting r plan) {expr : Expr} {label : String}
    {subject : Option Attribute} {kind : ColumnKind}
    (new : Projection.IsPlaced setting r plan ⟨expr, ⟨label, subject, kind⟩⟩) :
    s.Extends setting r plan (s.project expr label subject kind) ∧
      ∃ p ∈ (s.project expr label subject kind).projections, p.binding.label = label := by
  have same := placed.inStep.projections_project expr label subject kind
  refine ⟨⟨⟨placed.inStep.project .., fun p member => ?_, ?_, fun c member => ?_⟩, ?_, Scope.project_joins⟩, ?_⟩
  · rcases mem_putColumn (same ▸ member) with old | rfl
    · exact placed.projections p old
    · exact new
  · rw [same]
    exact nodup_putColumn placed.labels _
  · exact placed.enclosing c (Scope.project_enclosing (s := s) ▸ member)
  · rw [same]
    exact (putColumn_grows _ _).subset
  · rw [same]
    exact exists_putColumn _ _

theorem projectColumn_extends (placed : s.IsPlaced setting r plan) (stands : IsAt setting r plan way e table path)
    (member : a ∈ e.attributes) : s.Extends setting r plan (s.projectColumn a table path) := by
  unfold Scope.projectColumn
  split
  next column stored => exact (project_extends placed (.column stands member stored)).1
  next => exact .refl placed

theorem projectColumns_extends {attributes : List Attribute} (placed : s.IsPlaced setting r plan)
    (stands : IsAt setting r plan way e table path) (members : ∀ a ∈ attributes, a ∈ e.attributes) :
    s.Extends setting r plan (s.projectColumns attributes table path) := by
  unfold Scope.projectColumns
  induction attributes generalizing s with
  | nil => exact .refl placed
  | cons a rest ih =>
      have first := projectColumn_extends placed stands (members a (List.mem_cons_self ..))
      exact first.trans (ih first.placed fun b later => members b (List.mem_cons_of_mem _ later))

theorem projectIdentity_extends (built : e.IsBuilt) (placed : s.IsPlaced setting r plan)
    (stands : IsAt setting r plan way e table path) :
    s.Extends setting r plan (s.projectIdentity e table path) := by
  rw [Scope.projectIdentity_eq]
  refine projectColumns_extends placed stands fun a member => ?_
  rcases List.mem_append.mp member with key | opening
  · exact (Entity.mem_identityKeys_iff.mp key).1
  · obtain ⟨version, declared, rfl⟩ := Option.map_eq_some_iff.mp (Option.mem_toList.mp opening)
    exact Entity.mem_attributes_of_scalar (built.opening version declared)

theorem projectJoinSide_extends (placed : s.IsPlaced setting r plan) (stands : IsAt setting r plan way e table path)
    (columns : List String) : s.Extends setting r plan (s.projectJoinSide e columns table path) := by
  refine projectColumns_extends placed stands fun a member => ?_
  obtain ⟨column, -, found⟩ := List.mem_filterMap.mp (List.mem_filter.mp member).1
  exact List.mem_of_find?_eq_some found

end Projections

/-- A state that is reached from another one by visiting nodes. -/
structure Places (setting : Setting) (r : Root) (before after : State) (xs : List Standing) : Prop where
  placed : after.IsPlaced setting r
  grown : before.Grown after
  kept : before.scope.projections ⊆ after.scope.projections
  reads : ∀ x ∈ xs, x.node.item.subject.isAssociation = false → after.Reads x.way x.node.item.subject

section Places

variable {before state last : State} {xs ys : List Standing}

theorem State.Reaches.mono (reaches : before.Reaches way) (grown : before.Grown last) : last.Reaches way := by
  intro a isLast
  obtain ⟨j, found, joins⟩ := reaches a isLast
  exact ⟨j, find?_of_prefix found grown.plan, grown.joins joins⟩

theorem State.Reads.mono (reads : before.Reads way a) (grown : before.Grown last)
    (kept : before.scope.projections ⊆ last.scope.projections) : last.Reads way a where
  labelled := reads.labelled.imp fun _ found => ⟨kept found.1, found.2⟩
  reaches := reads.reaches.mono grown

namespace Places

theorem refl (placed : state.IsPlaced setting r) : Places setting r state state [] :=
  ⟨placed, .refl _, List.Subset.refl _, by simp⟩

theorem trans (first : Places setting r before state xs) (second : Places setting r state last ys) :
    Places setting r before last (xs ++ ys) where
  placed := second.placed
  grown := first.grown.trans second.grown
  kept := List.Subset.trans first.kept second.kept
  reads x member column := by
    rcases List.mem_append.mp member with early | late
    · exact (first.reads x early column).mono second.grown second.kept
    · exact second.reads x late column

/-- More columns of the statement at hand make no difference. -/
theorem extended (first : Places setting r before state xs) {scope : Scope}
    (more : state.scope.Extends setting r state.plan scope) :
    Places setting r before { state with scope := scope } xs := by
  have grown : state.Grown { state with scope := scope } := ⟨List.prefix_refl _, more.joins ▸ List.Subset.refl _⟩
  refine ⟨⟨more.placed, first.placed.deferred, first.placed.resolved.plan, first.placed.resolved.next, ?_⟩,
    first.grown.trans grown, List.Subset.trans first.kept more.kept, fun x member column =>
      (first.reads x member column).mono grown more.kept⟩
  rw [JoinPlan.Covers, more.joins]
  exact first.placed.resolved.covers

end Places

theorem defer_placed (registered : setting.registry.IsRegistered) (known : r.root ∈ setting.registry.all)
    (placed : c.IsPlaced setting r plan) (others : ∀ d ∈ deferred, d.IsPlaced setting r plan) :
    ∀ d ∈ defer c deferred, d.IsPlaced setting r plan := by
  induction deferred with
  | nil =>
      intro d member
      rw [List.mem_singleton.mp member]
      exact placed
  | cons other rest ih =>
      unfold defer
      split
      next same =>
        intro d member
        rcases List.mem_cons.mp member with rfl | later
        · have old := others other (List.mem_cons_self ..)
          obtain ⟨way, above, stands, path⟩ := old.starts
          obtain ⟨way', above', stands', path'⟩ := placed.starts
          obtain ⟨target, found, fits⟩ := old.nodes
          obtain ⟨target', found', fits'⟩ := placed.nodes
          obtain ⟨-, rfl⟩ := (stands.follows.concat old.member old.step found).eq_of_along registered.built known
            (stands'.follows.concat placed.member placed.step found') (path.symm.trans (same.trans path'))
          exact { old with nodes := ⟨target, found, fun n among =>
            (List.mem_append.mp among).elim (fits n) (fits' n)⟩ }
        · exact others d (List.mem_cons_of_mem _ later)
      next =>
        intro d member
        rcases List.mem_cons.mp member with rfl | later
        · exact others d (List.mem_cons_self ..)
        · exact ih (fun x inside => others x (List.mem_cons_of_mem _ inside)) d later

theorem IsAt.child (stands : IsAt setting r plan way e table above) (a : Attribute) :
    Path.child above a.property = Path.along (way ++ [a]) := by
  rw [stands.follows.along_concat, stands.path]

theorem walkColumn_places (item : FilterItem) (placed : state.IsPlaced setting r)
    (stands : IsAt setting r state.plan way e table above) (reaches : state.Reaches way) (member : a ∈ e.attributes)
    (stored : a.column.isSome = true) (plain : item.outputName = none ∧ item.sortAscending = none) :
    Places setting r state (walkColumn item a table (Path.child above a.property) state) [] ∧
      (walkColumn item a table (Path.child above a.property) state).Reads way a := by
  obtain ⟨column, stored⟩ := Option.isSome_iff_exists.mp stored
  have selected (tested : Statement) (inStep : Scope.IsInStep { state.scope with statement := tested })
      (columns : tested.selected = state.scope.statement.selected)
      (joins : tested.joins = state.scope.statement.joins) : ∃ scope : Scope,
      Scope.project { state.scope with statement := tested } (.columnOf table column) (Path.child above a.property)
        (some a) .value = scope ∧ state.scope.Extends setting r state.plan scope ∧
      ∃ p ∈ scope.projections, p.binding.label = Path.child above a.property := by
    have before : Scope.projections { state.scope with statement := tested } = state.scope.projections :=
      Scope.projections_of_selected columns
    have testedPlaced : Scope.IsPlaced setting r state.plan { state.scope with statement := tested } :=
      ⟨inStep, before ▸ placed.scope.projections, before ▸ placed.scope.labels, placed.scope.enclosing⟩
    obtain ⟨⟨isPlaced, kept, same⟩, labelled⟩ := project_extends testedPlaced (.column stands member stored)
    exact ⟨_, rfl, ⟨isPlaced, before ▸ kept, same.trans joins⟩, labelled⟩
  obtain ⟨scope, same, more, labelled⟩ : ∃ scope : Scope,
      walkColumn item a table (Path.child above a.property) state = { state with scope := scope } ∧
      state.scope.Extends setting r state.plan scope ∧
      ∃ p ∈ scope.projections, p.binding.label = Path.child above a.property := by
    unfold walkColumn
    rw [stored]
    dsimp only [State.mapScope]
    rw [plain.1, plain.2]
    cases item.predicate with
    | none =>
        obtain ⟨scope, same, rest⟩ := selected state.scope.statement placed.scope.inStep rfl rfl
        exact ⟨scope, congrArg (State.mk · _ _ _) same, rest⟩
    | some p =>
        obtain ⟨scope, same, rest⟩ :=
          selected (state.scope.statement.filter (p.expr a.columnType (.columnOf table column)))
            (placed.scope.inStep.filter _) rfl rfl
        exact ⟨scope, congrArg (State.mk · _ _ _) same, rest⟩
  rw [same]
  have places := (Places.refl placed).extended more
  exact ⟨places, stands.child a ▸ labelled, reaches.mono places.grown⟩

theorem join_places (placed : state.IsPlaced setting r) (stands : IsAt setting r state.plan way e table above)
    (member : a ∈ e.attributes) (step : IsStep a.property) (found : setting.registry.targetOf a = .ok target) :
    ∃ last joined, state.join setting (Path.child above a.property) a e table = .ok (last, joined) ∧
      Places setting r state last [] ∧ last.scope.enclosing = state.scope.enclosing ∧
      IsAt setting r last.plan (way ++ [a]) target joined (Path.child above a.property) ∧
      last.Reaches (way ++ [a]) := by
  obtain ⟨last, joined, joins⟩ := join_exists found state (Path.child above a.property) e table
  obtain ⟨grown, entry, planned, number, same⟩ := join_planned joins
  obtain ⟨all, j, inside, table, -, standing⟩ := State.join_joins placed.resolved joins
  obtain rfl := all.resolved.plan.eq_of_table inside (List.mem_of_find?_eq_some planned) (table.trans number.symm)
  have projections : last.scope.projections = state.scope.projections := by
    rw [same]
    exact Scope.addJoin_projections j.join
  have enclosing : last.scope.enclosing = state.scope.enclosing := by
    rw [same]
    rfl
  have deferred : last.deferred = state.deferred := by
    rw [same]
    rfl
  rw [stands.child] at planned
  refine ⟨last, joined, joins, ⟨⟨⟨join_isInStep placed.scope.inStep joins, fun p member => ?_, ?_,
    fun c member => ?_⟩, fun c member => ?_, all.resolved⟩, all.grown, projections ▸ List.Subset.refl _, by simp⟩,
    enclosing, ⟨?_, fun b isLast => ?_, ?_, ?_⟩, fun b isLast => ?_⟩
  · exact (placed.scope.projections p (projections ▸ member)).mono grown
  · rw [projections]
    exact placed.scope.labels
  · exact (placed.scope.enclosing c (enclosing ▸ member)).mono grown
  · exact (placed.deferred c (deferred ▸ member)).mono grown
  · exact stands.follows.concat member step found
  · rw [List.getLast?_concat, Option.some.injEq] at isLast
    rw [← isLast, planned]
    rfl
  · rw [JoinPlan.tableAlong_concat, JoinPlan.tableAt, planned, ← number]
    rfl
  · exact (stands.child a).symm
  · rw [List.getLast?_concat, Option.some.injEq] at isLast
    exact ⟨j, isLast ▸ planned, standing⟩

theorem walkOrAll_places {nodes : List FilterNode} (placed : state.IsPlaced setting r)
    (stands : IsAt setting r state.plan way e table path)
    (walks : ∃ last, walk setting [e] table path nodes state = .ok last ∧
      Places setting r state last (FilterNode.standingsOfAll way nodes)) :
    ∃ last, walkOrAll setting e table path nodes state = .ok last ∧
      Places setting r state last (FilterNode.standingsOfAll way nodes) := by
  unfold walkOrAll
  split
  next empty =>
    rw [List.isEmpty_iff.mp empty]
    exact ⟨_, rfl, (Places.refl placed).extended (projectColumns_extends placed.scope stands fun a scalar =>
      Entity.mem_attributes_of_scalar scalar)⟩
  next => exact walks

theorem walkCollection_places (registered : setting.registry.IsRegistered) (known : r.root ∈ setting.registry.all)
    {nodes : List FilterNode} (placed : state.IsPlaced setting r)
    (stands : IsAt setting r state.plan way e table above) (member : a ∈ e.attributes) (step : IsStep a.property)
    (collection : a.isCollection = true) (found : setting.registry.targetOf a = .ok target)
    (fits : ∀ n ∈ nodes, n.Fits setting.registry target) :
    Places setting r state (walkCollection nodes a e table above (Path.child above a.property) state) [] := by
  have side := projectJoinSide_extends placed.scope stands (a.joinColumns.map (·.source))
  obtain ⟨isPlaced, grown, kept, -⟩ := (Places.refl placed).extended side
  refine ⟨⟨isPlaced.scope, defer_placed registered known ?_ isPlaced.deferred,
    ⟨isPlaced.resolved.plan, isPlaced.resolved.next, isPlaced.resolved.covers⟩⟩, ⟨grown.plan, grown.joins⟩,
    kept, by simp⟩
  exact ⟨isPlaced.scope.enclosing, ⟨way, above, stands, stands.child a⟩, member, step, collection, target, found, fits⟩

theorem finishAssociation_places (built : target.IsBuilt) (placed : state.IsPlaced setting r)
    (stands : IsAt setting r state.plan way e table above)
    {further : List Attribute} (leads : IsAt setting r state.plan further target joined path) (a : Attribute) :
    Places setting r state (finishAssociation a e target table joined above path state) [] := by
  have identity := projectIdentity_extends built placed.scope leads
  have source := projectJoinSide_extends identity.placed stands (a.joinColumns.map (·.source))
  have side := projectJoinSide_extends source.placed leads (a.joinColumns.map (·.target))
  exact (Places.refl placed).extended ((identity.trans source).trans side)

mutual

theorem walk_places (registered : setting.registry.IsRegistered) (known : r.root ∈ setting.registry.all)
    (nodes : List FilterNode) {way : List Attribute} {e : Entity} {table : Nat} {above : String}
    {state : State} (placed : state.IsPlaced setting r) (stands : IsAt setting r state.plan way e table above)
    (reaches : state.Reaches way) (fits : ∀ n ∈ nodes, n.Fits setting.registry e) :
    ∃ last, walk setting [e] table above nodes state = .ok last ∧
      Places setting r state last (FilterNode.standingsOfAll way nodes) := by
  match nodes with
  | [] => exact ⟨state, rfl, .refl placed⟩
  | n :: rest =>
      obtain ⟨middle, first, here⟩ :=
        walkNode_places registered known n placed stands reaches (fits n (List.mem_cons_self ..))
      obtain ⟨last, others, later⟩ := walk_places registered known rest here.placed (stands.mono here.grown.plan)
        (reaches.mono here.grown) fun m among => fits m (List.mem_cons_of_mem _ among)
      refine ⟨last, ?_, here.trans later⟩
      rw [walk, first]
      exact others

theorem walkNode_places (registered : setting.registry.IsRegistered) (known : r.root ∈ setting.registry.all)
    (n : FilterNode) {way : List Attribute} {e : Entity} {table : Nat} {above : String}
    {state : State} (placed : state.IsPlaced setting r) (stands : IsAt setting r state.plan way e table above)
    (reaches : state.Reaches way) (fits : n.Fits setting.registry e) :
    ∃ last, walkNode setting [e] table above n state = .ok last ∧ Places setting r state last (n.standings way) := by
  match n with
  | ⟨item, children⟩ =>
      have resolved := fits.resolve? (registered.built e (stands.follows.known known))
      cases fits with
      | @association e target a nodes member step found deeper =>
          have kind := Registry.isAssociation_of_targetOf found
          cases collection : a.isCollection with
          | true =>
              have places := walkCollection_places registered known placed stands member step collection found deeper
              refine ⟨_, ?_, { places with reads := ?_ }⟩
              · simp only [walkNode, resolved, collection, if_true]
              · rw [FilterNode.standings, collection, if_pos rfl, List.forall_mem_singleton]
                exact fun column => absurd kind (column ▸ Bool.false_ne_true)
          | false =>
              obtain ⟨reached, joined, joins, first, -, leads, arrives⟩ := join_places placed stands member step found
              obtain ⟨inside, walked, below⟩ := walkOrAll_places first.placed leads
                (walk_places registered known children first.placed leads arrives deeper)
              have finished := finishAssociation_places
                (registered.built target (Registry.IsRegistered.mem_of_targetOf found)) below.placed
                ((stands.mono first.grown.plan).mono below.grown.plan) (leads.mono below.grown.plan) a
              have places := (first.trans below).trans finished
              rw [List.nil_append, List.append_nil] at places
              refine ⟨_, ?_, { places with reads := ?_ }⟩
              · rw [walkNode_association resolved rfl collection kind]
                simp only [found, joins, walked, bind, Except.bind]
                rfl
              · rw [FilterNode.standings, collection, if_neg Bool.false_ne_true, List.forall_mem_cons]
                exact ⟨fun column => absurd kind (column ▸ Bool.false_ne_true), places.reads⟩
      | @column e a predicate member step isColumn =>
          have built := registered.built e (stands.follows.known known)
          have stored := built.isStored member isColumn
          have single := Attribute.isCollection_of_column isColumn
          obtain ⟨places, reads⟩ :=
            walkColumn_places { subject := a, predicate := predicate } placed stands reaches member stored ⟨rfl, rfl⟩
          refine ⟨_, ?_, { places with reads := ?_ }⟩
          · simp only [walkNode, resolved, single, isColumn, Bool.false_eq_true, if_false]
          · rw [FilterNode.standings, single, if_neg Bool.false_ne_true, List.forall_mem_cons]
            exact ⟨fun _ => reads, by simp [FilterNode.standingsOfAll]⟩

end

end Places

end Compile

end ViewEngine
