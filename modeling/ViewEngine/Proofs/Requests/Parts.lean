import ViewEngine.Proofs.Requests.Placed

namespace ViewEngine

open Sql Compile

/-- A statement of a view, and what is known of its columns: the one for the root rows, whose path is empty, or that
of a collection. -/
structure Part where
  path : String
  statement : Statement
  columns : List ColumnBinding

namespace Part

def projections (x : Part) : List Projection :=
  List.zipWith (fun item b => ⟨item.expr, b⟩) x.statement.selected x.columns

/-- As many columns are known as there are selected, under the same labels. -/
structure IsAligned (x : Part) : Prop where
  selected : x.statement.selected = x.projections.map fun p => ⟨p.expr, some p.binding.label⟩
  columns : x.columns = x.projections.map (·.binding)

/-- A part that joins the rows at the end of a way, under the number that the plan has for them. -/
def Joins (x : Part) (plan : JoinPlan) (way : List Attribute) : Prop :=
  ∀ a, way.getLast? = some a → ∃ j, plan.find? (Path.along way) a.id = some j ∧ j.join ∈ x.statement.joins ∧
    j.join.table.number = some (plan.tableAlong way)

structure Fetches (setting : Setting) (r : Root) (plan : JoinPlan) (x : Part) (b : Branch) : Prop where
  aligned : x.IsAligned
  placed : ∀ p ∈ x.projections, p.IsPlaced setting r plan
  labels : (x.projections.map (·.binding.label)).Nodup
  reads : ∀ y ∈ b.standings, y.node.item.subject.isAssociation = false →
    (∃ p ∈ x.projections, p.binding.label = Path.along (y.way ++ [y.node.item.subject])) ∧ x.Joins plan y.way

theorem Fetches.mono {setting : Setting} {r : Root} {plan further : JoinPlan} {x : Part} {b : Branch}
    (fetches : x.Fetches setting r plan b) (grown : plan.entries <+: further.entries) :
    x.Fetches setting r further b where
  aligned := fetches.aligned
  placed p member := (fetches.placed p member).mono grown
  labels := fetches.labels
  reads y member column := by
    obtain ⟨labelled, joins⟩ := fetches.reads y member column
    refine ⟨labelled, fun a isLast => ?_⟩
    obtain ⟨j, found, inside, number⟩ := joins a isLast
    have again := find?_of_prefix found grown
    refine ⟨j, again, inside, number.trans (congrArg some ?_)⟩
    simp [JoinPlan.tableAlong, JoinPlan.tableAt, isLast, found, again]

end Part

def SubSelect.part (s : SubSelect) : Part :=
  ⟨s.path, s.statement, s.columns⟩

def CompiledView.parts (v : CompiledView) : List Part :=
  ⟨"", v.primary, v.columns⟩ :: v.subSelects.map (·.part)

namespace Compile

/-- The statement of a collection that begins a branch, with the columns of that branch. -/
def Root.Answers (r : Root) (setting : Setting) (plan : JoinPlan) (s : SubSelect) (c : Collected) : Prop :=
  ∃ b : Branch, b.IsRooted setting.registry r.root ∧ b.way ≠ [] ∧ b.collected = c ∧ s.part.Fetches setting r plan b

variable {setting : Setting} {r : Root} {plan further : JoinPlan} {c : DeferredCollection} {x : Part} {b : Branch}
  {deferred collections : List DeferredCollection} {state last : State} {s : Scope} {next : Nat}

theorem projections_of_scope (path : String) (s : Scope) (statement : Statement)
    (inStep : s.IsInStep) (selected : statement.selected = s.statement.selected) :
    Part.projections ⟨path, statement, s.columns⟩ = s.projections ∧ Part.IsAligned ⟨path, statement, s.columns⟩ := by
  have projections : Part.projections ⟨path, statement, s.columns⟩ = s.projections := by
    rw [Part.projections, selected]
    rfl
  refine ⟨projections, ?_, ?_⟩
  · rw [projections]
    exact selected.trans inStep.selected
  · rw [projections]
    exact inStep.columns

theorem fetches_of_places (places : Places setting r state last b.standings) {path : String} {statement : Statement}
    (selected : statement.selected = last.scope.statement.selected)
    (joins : statement.joins = last.scope.statement.joins) :
    Part.Fetches setting r last.plan ⟨path, statement, last.scope.columns⟩ b := by
  obtain ⟨projections, aligned⟩ := projections_of_scope path _ _ places.placed.scope.inStep selected
  refine ⟨aligned, ?_, ?_, fun y member column => ?_⟩
  · rw [projections]
    exact places.placed.scope.projections
  · rw [projections]
    exact places.placed.scope.labels
  · obtain ⟨labelled, reaches⟩ := places.reads y member column
    rw [projections]
    refine ⟨labelled, fun a isLast => ?_⟩
    obtain ⟨j, found, inside⟩ := reaches a isLast
    refine ⟨j, found, joins ▸ inside, ?_⟩
    rw [(places.placed.resolved.plan.entries j (List.mem_of_find?_eq_some found)).table]
    simp [JoinPlan.tableAlong, JoinPlan.tableAt, isLast, found]

theorem start_placed {enclosing : List JoinedCollection} (placed : ∀ outer ∈ enclosing, outer.IsPlaced setting r plan) :
    (r.start enclosing).IsPlaced setting r plan := by
  have empty : Scope.IsPlaced setting r plan
      { statement := Statement.select.addTable r.root.table (some 0), enclosing := enclosing } :=
    ⟨.of_empty rfl rfl enclosing, fun p none => absurd none List.not_mem_nil, List.nodup_nil, placed⟩
  exact (project_extends empty (.key r.key)).1.placed

theorem identities_extend (registered : setting.registry.IsRegistered) (known : r.root ∈ setting.registry.all)
    {outers : List JoinedCollection} (areOuter : ∀ outer ∈ outers, outer.IsPlaced setting r plan)
    (placed : s.IsPlaced setting r plan) : s.Extends setting r plan
      (outers.foldl (fun s outer => s.projectIdentity outer.entity outer.table outer.path) s) := by
  induction outers generalizing s with
  | nil => exact .refl placed
  | cons outer rest ih =>
      obtain ⟨way, stands⟩ := (areOuter outer (List.mem_cons_self ..)).stands
      have first := projectIdentity_extends (registered.built _ (stands.follows.known known)) placed stands
      exact first.trans (ih (fun other later => areOuter other (List.mem_cons_of_mem _ later)) first.placed)

theorem enter_placed {table : Nat} {path : String} {way : List Attribute} {target : Entity}
    (placed : state.IsPlaced setting r) (leads : IsAt setting r state.plan way target table path) :
    State.IsPlaced setting r
      (state.mapScope fun s => { s with enclosing := s.enclosing ++ [⟨path, target, table⟩] }) := by
  refine ⟨⟨placed.scope.inStep.changed rfl rfl, placed.scope.projections, placed.scope.labels, fun outer member => ?_⟩,
    placed.deferred, ⟨placed.resolved.plan, placed.resolved.next, placed.resolved.covers⟩⟩
  rcases List.mem_append.mp member with old | last
  · exact placed.scope.enclosing outer old
  · rw [List.mem_singleton.mp last]
    exact ⟨_, leads⟩

theorem finish_selected (r : Root) (setting : Setting) (scope : Scope) : (Scope.finish { scope with
    statement := r.root.constrainRoot r.others setting.pointInTime scope.statement }).selected =
      scope.statement.selected := by
  rw [Scope.finish_eq]
  cases r.others with
  | nil => rw [Entity.constrainRoot_single]
  | cons other rest => rw [Entity.constrainRoot_several]

theorem subSelect_fetches (registered : setting.registry.IsRegistered) (known : r.root ∈ setting.registry.all)
    (resolved : plan.IsResolved setting.registry) (follows : plan.IsNext next) (placed : c.IsPlaced setting r plan)
    (others : ∀ d ∈ deferred, d.IsPlaced setting r plan) :
    ∃ s after following later, subSelect setting r c plan next deferred = .ok (s, after, following, later) ∧
      plan.entries <+: after.entries ∧ after.IsResolved setting.registry ∧ after.IsNext following ∧
      (∀ d ∈ later, d.IsPlaced setting r after) ∧
      r.Answers setting after s (.ofDeferred c) := by
  obtain ⟨way, above, stands, path⟩ := placed.starts
  obtain ⟨target, found, fits⟩ := placed.nodes
  have begun : State.IsPlaced setting r ⟨r.chained c plan, plan, next, deferred⟩ := by
    have start := start_placed (r := r) placed.enclosing
    have same : (r.chained c plan).projections = (r.start c.enclosing).projections := Scope.addJoins_projections _
    exact ⟨⟨start.inStep.addJoins _, same ▸ start.projections, same ▸ start.labels, start.enclosing⟩, others,
      chained_resolved resolved follows r c deferred⟩
  have identified := (Places.refl begun).extended (identities_extend registered known placed.enclosing begun.scope)
  obtain ⟨reached, table, joins, first, -, leads, arrives⟩ :=
    join_places identified.placed stands placed.member placed.step found
  rw [stands.child, ← path] at joins leads
  have entered := enter_placed first.placed leads
  obtain ⟨inside, walked, below⟩ := walkOrAll_places entered leads
    (walk_places registered known c.nodes entered leads arrives fits)
  have leads := leads.mono below.grown.plan
  have identity := projectIdentity_extends (registered.built target (Registry.IsRegistered.mem_of_targetOf found))
    below.placed.scope leads
  have side := projectJoinSide_extends identity.placed leads (c.subject.joinColumns.map (·.target))
  obtain ⟨final, isFinal, more⟩ : ∃ final, (inside.scope.projectIdentity target table c.path).projectJoinSide target
      (c.subject.joinColumns.map (·.target)) table c.path = final ∧ inside.scope.Extends setting r inside.plan final :=
    ⟨_, rfl, identity.trans side⟩
  obtain ⟨sub, made, columns, statement⟩ : ∃ sub : SubSelect,
      subSelect setting r c plan next deferred = .ok (sub, inside.plan, inside.nextTable, inside.deferred) ∧
      sub.columns = final.columns ∧
      sub.statement = Scope.finish { final with
        statement := r.root.constrainRoot r.others setting.pointInTime final.statement } := by
    unfold subSelect
    rw [found, ← isFinal]
    unfold Root.chained at joins
    simp only [bind, Except.bind, joins, walked]
    exact ⟨_, rfl, rfl, rfl⟩
  refine ⟨sub, inside.plan, inside.nextTable, inside.deferred, made,
    (identified.grown.plan.trans first.grown.plan).trans below.grown.plan, below.placed.resolved.plan,
    below.placed.resolved.next, below.placed.deferred, ⟨way ++ [c.subject], c.nodes⟩,
    ⟨innermost_of_collection placed.collection, target, stands.follows.concat placed.member placed.step found, fits⟩,
    by simp, by simp [Branch.collected, Collected.ofDeferred, path], ?_⟩
  have places := below.extended more
  rw [SubSelect.part, columns, statement]
  exact fetches_of_places (b := ⟨way ++ [c.subject], c.nodes⟩) places (finish_selected r setting final)
    (finish_joins r setting final)

theorem Root.Answers.mono {s : SubSelect} {c : Collected} (answers : r.Answers setting plan s c)
    (grown : plan.entries <+: further.entries) : r.Answers setting further s c := by
  obtain ⟨b, rooted, collection, same, fetches⟩ := answers
  exact ⟨b, rooted, collection, same, fetches.mono grown⟩

theorem subSelects_fetch (registered : setting.registry.IsRegistered) (known : r.root ∈ setting.registry.all)
    (resolved : plan.IsResolved setting.registry) (follows : plan.IsNext next)
    (placed : ∀ c ∈ collections, c.IsPlaced setting r plan)
    (others : ∀ d ∈ deferred, d.IsPlaced setting r plan) :
    ∃ found after following later,
      subSelects setting r collections plan next deferred = .ok (found, after, following, later) ∧
      plan.entries <+: after.entries ∧ after.IsResolved setting.registry ∧ after.IsNext following ∧
      (∀ d ∈ later, d.IsPlaced setting r after) ∧
      List.Forall₂ (r.Answers setting after) found (collections.map Collected.ofDeferred) := by
  induction collections generalizing plan next deferred with
  | nil => exact ⟨[], plan, next, deferred, rfl, List.prefix_refl _, resolved, follows, others, .nil⟩
  | cons c rest ih =>
      obtain ⟨first, middle, number, between, made, grown, middleResolved, middleNext, putDown, answers⟩ :=
        subSelect_fetches registered known resolved follows (placed c (List.mem_cons_self ..)) others
      obtain ⟨found, after, following, later, allMade, grownFurther, afterResolved, afterNext, allPutDown, all⟩ :=
        ih middleResolved middleNext (fun d member => (placed d (List.mem_cons_of_mem _ member)).mono grown) putDown
      refine ⟨first :: found, after, following, later, ?_, grown.trans grownFurther, afterResolved, afterNext,
        allPutDown, .cons (answers.mono grownFurther) all⟩
      simp only [subSelects, made, allMade, bind, Except.bind]
      rfl

theorem rounds_fetch (setting : Setting) (levels : Nat) (registered : setting.registry.IsRegistered)
    (known : r.root ∈ setting.registry.all) (resolved : plan.IsResolved setting.registry) (follows : plan.IsNext next)
    (placed : ∀ d ∈ deferred, d.IsPlaced setting r plan) :
    ∃ found after, rounds setting r levels deferred plan next = .ok (found, after) ∧ plan.entries <+: after.entries ∧
      List.Forall₂ (r.Answers setting after) found
        (collectedWithin setting.registry after levels (deferred.map Collected.ofDeferred)) := by
  induction levels generalizing plan next deferred with
  | zero => exact ⟨[], plan, rfl, List.prefix_refl _, .nil⟩
  | succ levels ih =>
      unfold rounds
      cases deferred with
      | nil =>
          refine ⟨[], plan, rfl, List.prefix_refl _, ?_⟩
          rw [List.map_nil, collectedWithin_nil]
          exact .nil
      | cons c rest =>
          obtain ⟨first, middle, number, between, made, grown, middleResolved, middleNext, putDown, answers⟩ :=
            subSelects_fetch registered known resolved follows placed (List.forall_mem_nil _)
          obtain ⟨found, after, allMade, grownFurther, all⟩ := ih middleResolved middleNext putDown
          refine ⟨first ++ found, after, ?_, grown.trans grownFurther, ?_⟩
          · simp only [List.isEmpty_cons, Bool.false_eq_true, if_false, made, allMade, bind, Except.bind]
            rfl
          · obtain ⟨-, serves⟩ := subSelects_serve made
            rw [(serves after grownFurther).2] at all
            exact List.rel_append (answers.imp fun _ _ each => each.mono grownFurther) all

variable {t : FilterTree} {requests : List Request}

theorem begin_placed (placed : s.IsPlaced setting r ⟨[]⟩) (joins : s.statement.joins = []) :
    State.IsPlaced setting r ⟨s, {}, 1, []⟩ := by
  refine ⟨placed, by simp, JoinPlan.isResolved_empty, .empty, fun x member => ?_⟩
  rw [joins] at member
  contradiction

/-- The statement for the root rows is made, and fetches what is asked for outside of collections. -/
theorem primary_fetches (setting : Setting) (r : Root) (registered : setting.registry.IsRegistered)
    (root : r.root = t.root) (isOf : t.IsOf setting.registry requests) :
    ∃ last, primary setting r t = .ok last ∧ last.plan.IsResolved setting.registry ∧ last.plan.IsNext last.nextTable ∧
      (∀ d ∈ last.deferred, d.IsPlaced setting r last.plan) ∧
      ∀ offset limit, Part.Fetches setting r last.plan
        ⟨"", { last.scope.finish with offset := offset, limit := limit }, last.scope.columns⟩ ⟨[], t.nodes⟩ := by
  have known : r.root ∈ setting.registry.all := root ▸ isOf.known
  have built := registered.built r.root known
  have stands (plan : JoinPlan) : IsAt setting r plan [] r.root 0 "" :=
    ⟨.nil, fun a none => by simp at none, rfl, rfl⟩
  have all : State.IsPlaced setting r ⟨if t.nodes.isEmpty then (r.start []).projectColumns r.root.scalars 0 ""
      else r.start [], {}, 1, []⟩ := by
    have start : (r.start []).IsPlaced setting r ⟨[]⟩ := start_placed (by simp)
    split
    · have more := projectColumns_extends start (stands _) fun a scalar =>
        Entity.mem_attributes_of_scalar (e := r.root) scalar
      exact begin_placed more.placed (more.joins.trans (start_joins r []))
    · exact begin_placed start (start_joins r [])
  obtain ⟨inside, walked, places⟩ := walk_places registered known t.nodes all (stands _) (fun a none => by simp at none)
    (root ▸ isOf.fits)
  have finished : inside.scope.Extends setting r inside.plan (finishRoot r inside.scope) := by
    have identity := projectIdentity_extends built places.placed.scope (stands _)
    unfold finishRoot
    cases declared : r.root.discriminator with
    | none => exact identity
    | some d => exact identity.trans (projectColumn_extends identity.placed (stands _)
        (Entity.mem_attributes_of_scalar (built.discriminator d declared)))
  obtain ⟨last, made, plan, next, deferred, scope⟩ : ∃ last, primary setting r t = .ok last ∧
      last.plan = inside.plan ∧ last.nextTable = inside.nextTable ∧ last.deferred = inside.deferred ∧
      last.scope = { finishRoot r inside.scope with
        statement := r.root.constrainRoot r.others setting.pointInTime (finishRoot r inside.scope).statement } := by
    unfold primary
    rw [FilterTree.roots, isOf.single, ← root]
    simp only [bind, Except.bind, walked]
    exact ⟨_, rfl, rfl, rfl, rfl, rfl⟩
  have columns : last.scope.columns = (finishRoot r inside.scope).columns := by
    rw [scope]
  refine ⟨last, made, plan ▸ places.placed.resolved.plan, by rw [plan, next]; exact places.placed.resolved.next,
    plan ▸ deferred ▸ places.placed.deferred, fun offset limit => ?_⟩
  rw [plan, columns]
  refine fetches_of_places (b := ⟨[], t.nodes⟩) (places.extended finished) ?_ ?_
  · rw [scope]
    exact finish_selected r setting (finishRoot r inside.scope)
  · rw [scope]
    exact finish_joins r setting (finishRoot r inside.scope)

end Compile

end ViewEngine
