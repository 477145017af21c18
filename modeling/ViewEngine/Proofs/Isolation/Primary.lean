import ViewEngine.Proofs.Compilation.Collected
import ViewEngine.Proofs.Compilation.Scoping
import ViewEngine.Proofs.Isolation.Walks

namespace ViewEngine

open Sql Compile

/-- A tree that is left when collections are taken out. -/
structure FilterTree.Without (registry : Registry) (emptied : Prop) (t t' : FilterTree) : Prop where
  root : t'.root = t.root
  otherRoots : t'.otherRoots = t.otherRoots
  nodes : Pruned registry emptied t.roots t.nodes t'.nodes
  filled : t'.nodes = [] → t.nodes = [] ∨ emptied

namespace CompiledView

def projections (v : CompiledView) : List Projection :=
  List.zipWith (fun item b => ⟨item.expr, b⟩) v.primary.selected v.columns

/-- The columns are selected under their labels, and where rows are counted, they are grouped by all others. -/
structure IsGrouped (v : CompiledView) : Prop where
  selected : v.primary.selected = v.projections.map fun p => ⟨p.expr, some p.binding.label⟩
  columns : v.columns = v.projections.map (·.binding)
  grouping : v.primary.grouping =
    if v.projections.any (·.binding.kind == .aggregate) then
      (v.projections.filter (·.binding.kind != .aggregate)).map (·.expr)
    else []

end CompiledView

namespace Compile

variable {setting : Setting} {r : Root} {emptied : Prop} {t t' : FilterTree} {last : State} {plan : JoinPlan}

theorem mem_foldl_onto {reached : List Reached} {s : Statement} {join : Join}
    (member : join ∈ (reached.foldl (Reached.onto plan) s).joins) :
    join ∈ s.joins ∨ ∃ x ∈ reached, x.join? plan = some join := by
  have tests (leaves : List Leaf) (s : Statement) :
      (leaves.foldl (fun s l => s.filter l.expr) s).joins = s.joins := by
    induction leaves generalizing s with
    | nil => rfl
    | cons l rest ih => exact ih (s.filter l.expr)
  have orders (orderings : List Sql.Ordering) (s : Statement) :
      (orderings.foldl (fun s o => s.addOrdering o.expr o.direction) s).joins = s.joins := by
    induction orderings generalizing s with
    | nil => rfl
    | cons o rest ih => exact ih (s.addOrdering o.expr o.direction)
  induction reached generalizing s with
  | nil => exact .inl member
  | cons x rest ih =>
      rcases ih member with here | ⟨y, later, joined⟩
      · rw [Reached.onto, orders, tests] at here
        refine (mem_foldl_addJoin here).imp_right fun joined => ?_
        exact ⟨x, List.mem_cons_self .., Option.mem_toList.mp joined⟩
      · exact .inr ⟨y, List.mem_cons_of_mem _ later, joined⟩

theorem constrainRoot_joins (root : Entity) (others : List Entity) (pointInTime : Option Timestamp) (s : Statement) :
    (root.constrainRoot others pointInTime s).joins = s.joins := by
  obtain ⟨further, same, -⟩ : s.RestrictedTo (root.constrainRoot others pointInTime s) :=
    Entity.restrictedTo_constrainRoot root others s
  rw [same]

theorem primary_joined (succeeded : primary setting r t = .ok last) (grown : last.plan.entries <+: plan.entries) :
    ∀ join ∈ last.scope.statement.joins,
      ∃ x ∈ reachedFrom setting.registry plan t, x.join? plan = some join := by
  intro join member
  rw [show last.scope.statement.joins = last.scope.base.joins from rfl, (primary_base succeeded grown).1,
    constrainRoot_joins] at member
  have none : (r.start []).base.joins = [] := by
    rw [Root.start, Scope.project_base]
    rfl
  rcases mem_foldl_onto member with before | joined
  · rw [none] at before
    contradiction
  · exact joined

/-- Where nothing is asked of the roots, all their columns are fetched. -/
def Root.begun (r : Root) (nodes : List FilterNode) : Scope :=
  if nodes.isEmpty then (r.start []).projectColumns r.root.scalars 0 "" else r.start []

theorem primary_isolated (without : t.Without setting.registry emptied t') (succeeded : primary setting r t = .ok last) :
    ∃ last', primary setting r t' = .ok last' ∧ last.Alike emptied last' := by
  obtain ⟨inside, walked, succeeded⟩ := bind_eq_ok.mp succeeded
  cases succeeded
  have zero (scope : Scope) : 0 ∈ Join.introduced scope.statement.joins := List.mem_cons_self ..
  have same : Scope.Alike emptied (r.start []) (r.start []) :=
    ⟨rfl, start_isInStep r [], start_isInStep r [], .refl _⟩
  have begun : Scope.Alike emptied (r.begun t.nodes) (r.begun t'.nodes) := by
    unfold Root.begun
    cases nodes : t.nodes with
    | nil =>
        rw [without.nodes.eq_nil nodes]
        exact same.projectColumns _ 0 ""
    | cons first rest =>
        cases left : t'.nodes with
        | cons => exact same
        | nil =>
            rcases without.filled left with none | emptied
            · rw [nodes] at none
              contradiction
            · exact same.projectColumns_right (zero _) emptied
  have alike : State.Alike emptied ⟨r.begun t.nodes, {}, 1, []⟩ ⟨r.begun t'.nodes, {}, 1, []⟩ :=
    ⟨rfl, rfl, fun _ member => absurd member List.not_mem_nil, begun⟩
  obtain ⟨inside', walked', alike, -⟩ := without.nodes.isolated alike (zero _) walked
  have roots : t'.roots = t.roots := by rw [FilterTree.roots, without.root, without.otherRoots, FilterTree.roots]
  refine ⟨_, bind_eq_ok.mpr ⟨inside', by rw [roots]; exact walked', rfl⟩, alike.mapScope ?_⟩
  have finished : (finishRoot r inside.scope).Alike emptied (finishRoot r inside'.scope) := by
    unfold finishRoot
    have identified := alike.scope.projectIdentity r.root 0 ""
    cases r.root.discriminator with
    | none => exact identified
    | some d => exact identified.projectColumn d.subject 0 ""
  refine finished.changed (r.root.constrainRoot r.others setting.pointInTime)
    (fun _ => Scope.constrainRoot_base ..)
    (fun _ inStep => ⟨inStep.constrainRoot .., Scope.constrainRoot_projections ..⟩)
    fun join member => ?_
  rw [constrainRoot_joins]
  exact member

end Compile

section Views

variable {registry : Registry} {settings : ViewSettings} {dialect : Dialect} {pointInTime : Option Timestamp}
  {page : Page} {t t' : FilterTree} {v v' : CompiledView} {emptied : Prop}

open Compile

theorem compile_primary (compiled : compile registry settings dialect pointInTime page t = .ok v) :
    ∃ last, primary ⟨registry, pointInTime⟩ (.ofTree settings t) t = .ok last ∧
      last.plan.entries <+: v.joinPlan.entries ∧ v.columns = last.scope.columns ∧
      v.primary = { last.scope.finish with offset := page.offset, limit := page.limit.or settings.defaultLimit } := by
  obtain ⟨last, primary, compiled⟩ := bind_eq_ok.mp compiled
  obtain ⟨⟨found, plan⟩, collections, compiled⟩ := bind_eq_ok.mp compiled
  cases compiled
  exact ⟨last, primary, (rounds_serve collections).1, rfl, rfl⟩

theorem projections_eq {last : State} (columns : v.columns = last.scope.columns)
    (selected : v.primary.selected = last.scope.finish.selected) : v.projections = last.scope.projections := by
  rw [CompiledView.projections, columns, selected, Scope.finish_eq]
  rfl

theorem compile_isGrouped (compiled : compile registry settings dialect pointInTime page t = .ok v) : v.IsGrouped := by
  obtain ⟨last, made, -, columns, primary⟩ := compile_primary compiled
  have projections := projections_eq columns (congrArg (·.selected) primary)
  have inStep := primary_isInStep made
  refine ⟨?_, ?_, ?_⟩
  · rw [projections, primary]
    exact inStep.finish_selected
  · rw [projections, columns]
    exact inStep.columns
  · rw [projections, primary]
    exact inStep.finish_grouping

/-- Taking out collections changes nothing about the statement for the root rows but its columns. What differs is
columns of tables that it joins anyway, and those whose labels these take; and it has more of them without the
collections only where these were all that was asked for. -/
theorem collections_are_isolated (compiled : compile registry settings dialect pointInTime page t = .ok v)
    (without : t.Without registry emptied t')
    (compiledWithout : compile registry settings dialect pointInTime page t' = .ok v') :
    v'.primary = { v.primary with selected := v'.primary.selected, grouping := v'.primary.grouping } ∧
    Differ (Projection.IsPlain v.primary.joins) (fun p => emptied ∧ p.IsPlain v.primary.joins)
      v.projections v'.projections ∧
    v.IsGrouped ∧ v'.IsGrouped ∧
    ∀ join ∈ v.primary.joins, ∃ x ∈ reachedFrom registry v.joinPlan t, x.join? v.joinPlan = some join ∧
      (x.subject.isCollection = true → x.item.aggregate.isSome = true) := by
  obtain ⟨last, primary, grown, columns, isPrimary⟩ := compile_primary compiled
  obtain ⟨last', primary', -, columns', isPrimary'⟩ := compile_primary compiledWithout
  obtain ⟨other, primaryOther, alike⟩ := primary_isolated without primary
  have sameRoot : Root.ofTree settings t' = Root.ofTree settings t := by
    rw [Root.ofTree, Root.ofTree, without.root, without.otherRoots]
  rw [sameRoot, primaryOther] at primary'
  cases primary'
  have joins : v.primary.joins = last.scope.statement.joins := by
    rw [isPrimary, Scope.finish_eq]
  refine ⟨?_, ?_, compile_isGrouped compiled, compile_isGrouped compiledWithout, fun join member => ?_⟩
  · rw [isPrimary', isPrimary, Scope.finish_base, Scope.finish_base (s := last.scope), alike.scope.base]
  · rw [projections_eq columns (congrArg (·.selected) isPrimary),
      projections_eq columns' (congrArg (·.selected) isPrimary'), joins]
    exact alike.scope.columns
  · rw [joins] at member
    obtain ⟨x, isReached, joined⟩ := primary_joined primary grown join member
    refine ⟨x, isReached, joined, fun collection => ?_⟩
    unfold Reached.join? Reached.isCollection at joined
    cases counted : x.item.aggregate with
    | some aggregate => rfl
    | none => simp [counted, collection] at joined

end Views

def FilterNode.isCollectionOf (es : List Entity) (n : FilterNode) : Bool :=
  n.item.aggregate.isNone && (resolve? n.item es).any fun found => found.2.isCollection

/-- The tree that is left when all collections of the roots are taken out. -/
def FilterTree.flat (t : FilterTree) : FilterTree :=
  { t with nodes := t.nodes.filter fun n => !n.isCollectionOf t.roots }

theorem Compile.Pruned.filter {registry : Registry} {emptied : Prop} (es : List Entity) (nodes : List FilterNode) :
    Pruned registry emptied es nodes (nodes.filter fun n => !n.isCollectionOf es) := by
  induction nodes with
  | nil => exact .nil
  | cons n rest ih =>
      cases collection : n.isCollectionOf es with
      | false =>
          rw [List.filter_cons_of_pos (by rw [collection]; rfl)]
          exact .kept n ih
      | true =>
          rw [List.filter_cons_of_neg (by rw [collection]; decide)]
          obtain ⟨item, children⟩ := n
          obtain ⟨plain, resolved⟩ := Bool.and_eq_true_iff.mp collection
          obtain ⟨⟨e, a⟩, found, isCollection⟩ := (Option.any_eq_true _ _).mp resolved
          exact .collection found (Option.isNone_iff_eq_none.mp plain) isCollection ih

theorem FilterTree.without_flat {registry : Registry} {emptied : Prop} {t : FilterTree}
    (filled : t.flat.nodes = [] → t.nodes = [] ∨ emptied) : t.Without registry emptied t.flat :=
  ⟨rfl, rfl, .filter t.roots t.nodes, filled⟩

namespace Outline

set_option maxRecDepth 100000 in
/-- Orders without their lines, but with their customers. -/
theorem orders_are_isolated : ∃ registry t v v', orders.compiled? = some (registry, t, v) ∧
    compile registry {} .sqlite none {} t.flat = .ok v' ∧
    t.flat.nodes.length < t.nodes.length ∧ t.Without registry False t.flat ∧ v.primary.joins.length = 1 ∧
    v'.primary = { v.primary with selected := v'.primary.selected, grouping := v'.primary.grouping } ∧
    Differ (Projection.IsPlain v.primary.joins) (fun p => False ∧ p.IsPlain v.primary.joins)
      v.projections v'.projections ∧
    v.IsGrouped ∧ v'.IsGrouped ∧
    ∀ join ∈ v.primary.joins, ∃ x ∈ reachedFrom registry v.joinPlan t, x.join? v.joinPlan = some join ∧
      (x.subject.isCollection = true → x.item.aggregate.isSome = true) := by
  have checked : (orders.compiled?.map fun c => c.2.2.primary.joins.length == 1 &&
      decide (0 < c.2.1.flat.nodes.length ∧ c.2.1.flat.nodes.length < c.2.1.nodes.length) &&
      (compile c.1 {} .sqlite none {} c.2.1.flat).toOption.isSome) = some true := by
    decide +kernel
  obtain ⟨⟨registry, t, v⟩, found, checked⟩ := Option.map_eq_some_iff.mp checked
  simp only [Bool.and_eq_true, decide_eq_true_eq, beq_iff_eq, Option.isSome_iff_exists] at checked
  obtain ⟨⟨joined, left, fewer⟩, v', flat⟩ := checked
  have without : t.Without registry False t.flat := FilterTree.without_flat fun empty =>
    absurd (congrArg List.length empty) (Nat.ne_of_gt left)
  obtain ⟨-, -, compiled⟩ := compiled_eq found
  have compiledWithout := eq_ok_of_toOption flat
  exact ⟨registry, t, v, v', found, compiledWithout, fewer, without, joined,
    collections_are_isolated compiled without compiledWithout⟩

def lines : Outline :=
  { orders with chains := [asks "Order" ["lines"]] }

set_option maxRecDepth 100000 in
/-- A collection does not only add columns: where it is all that is asked for, others are kept out. -/
theorem collections_keep_columns_out : ∃ registry t v v', t.Without registry True t.flat ∧
    compile registry {} .sqlite none {} t = .ok v ∧ compile registry {} .sqlite none {} t.flat = .ok v' ∧
    ∃ b ∈ v'.columns, b ∉ v.columns := by
  have checked : (lines.compiled?.any fun c => (compile c.1 {} .sqlite none {} c.2.1.flat).toOption.any fun w =>
      w.columns.any fun b => !c.2.2.columns.contains b) = true := by
    decide +kernel
  obtain ⟨⟨registry, t, v⟩, found, checked⟩ := (Option.any_eq_true _ _).mp checked
  obtain ⟨v', flat, checked⟩ := (Option.any_eq_true _ _).mp checked
  obtain ⟨-, -, compiled⟩ := compiled_eq found
  obtain ⟨b, member, absent⟩ := List.any_eq_true.mp checked
  refine ⟨registry, t, v, v', FilterTree.without_flat fun _ => .inr trivial, compiled, eq_ok_of_toOption flat,
    b, member, ?_⟩
  simpa using absent

end Outline

end ViewEngine
