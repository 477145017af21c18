import Mathlib.Data.List.Forall2
import ViewEngine.Proofs.Compilation.Reached
import ViewEngine.Proofs.Compilation.Statements

namespace ViewEngine

open Sql Compile

namespace Compile

/-- The collections that are put down while the statements of other ones are made. -/
def collectedBelow (registry : Registry) (plan : JoinPlan) (collections : List Collected) : List Collected :=
  (collections.flatMap fun c => (c.reached registry plan).filterMap (·.collected?)).foldl Collected.put []

/-- Collections in the order of their statements: each round is a level further down than the one before. -/
def collectedWithin (registry : Registry) (plan : JoinPlan) : Nat → List Collected → List Collected
  | 0, _ => []
  | levels + 1, collections =>
    collections ++ collectedWithin registry plan levels (collectedBelow registry plan collections)

theorem collectedWithin_nil (registry : Registry) (plan : JoinPlan) (levels : Nat) :
    collectedWithin registry plan levels [] = [] := by
  induction levels with
  | zero => rfl
  | succ levels ih => exact ih

def IsUnrestricted (s : Statement) : Prop :=
  s.kind = .select ∧ s.conditions = []

/-- A statement that begins without conditions, and takes what the nodes add and what holds of the roots. -/
def Root.Writes (r : Root) (setting : Setting) (plan : JoinPlan) (reached : List Reached) (s : Statement) : Prop :=
  ∃ begun selected grouping, IsUnrestricted begun ∧
    s = { r.root.constrainRoot r.others setting.pointInTime (reached.foldl (Reached.onto plan) begun) with
      selected := selected, grouping := grouping }

structure Root.Serves (r : Root) (setting : Setting) (plan : JoinPlan) (s : SubSelect) (c : Collected) : Prop where
  path : s.path = c.path
  rootKey : s.rootKey = r.key
  rootKeyType : s.rootKeyType = r.keyType
  statement : r.Writes setting plan (c.reached setting.registry plan) s.statement

variable {setting : Setting} {r : Root} {c : DeferredCollection} {collections deferred further : List DeferredCollection}
  {plan after : JoinPlan} {next following : Nat} {s : SubSelect} {found : List SubSelect} {t : FilterTree}
  {last : State}

theorem Root.writes_finish {reached : List Reached} {scope : Scope} {begun : Statement} (unrestricted : IsUnrestricted begun)
    (same : scope.base = reached.foldl (Reached.onto plan) begun) :
    r.Writes setting plan reached (Scope.finish { scope with
      statement := r.root.constrainRoot r.others setting.pointInTime scope.statement }) := by
  have finished := Scope.finish_base (s := { scope with
    statement := r.root.constrainRoot r.others setting.pointInTime scope.statement })
  rw [Scope.constrainRoot_base, same] at finished
  exact ⟨begun, _, _, unrestricted, finished⟩

theorem IsUnrestricted.addJoin {s : Statement} (unrestricted : IsUnrestricted s) (join : Join) :
    IsUnrestricted (s.addJoin join) := by
  unfold Statement.addJoin
  split <;> exact unrestricted

theorem IsUnrestricted.foldl_addJoin {s : Statement} (unrestricted : IsUnrestricted s) (joins : List Join) :
    IsUnrestricted (joins.foldl Statement.addJoin s) := by
  induction joins generalizing s with
  | nil => exact unrestricted
  | cons join rest ih => exact ih (unrestricted.addJoin join)

theorem identities_base (outers : List JoinedCollection) (s : Scope) :
    (outers.foldl (fun s outer => s.projectIdentity outer.entity outer.table outer.path) s).base = s.base := by
  induction outers generalizing s with
  | nil => rfl
  | cons outer rest ih => exact (ih _).trans Scope.projectIdentity_base

theorem start_isUnrestricted (r : Root) (enclosing : List JoinedCollection) :
    IsUnrestricted (r.start enclosing).base := by
  rw [Root.start, Scope.project_base]
  exact ⟨rfl, rfl⟩

theorem addJoins_base (joins : List Join) (s : Scope) :
    Scope.base { s with statement := joins.foldl Statement.addJoin s.statement } =
      joins.foldl Statement.addJoin s.base := by
  induction joins generalizing s with
  | nil => rfl
  | cons join rest ih =>
      rw [List.foldl_cons, List.foldl_cons, ← Scope.addJoin_base]
      exact ih { s with statement := s.statement.addJoin join }

theorem walkOrAll_gathers {target : Entity} {table : Nat} {path : String} {nodes : List FilterNode}
    {state after : State} (succeeded : walkOrAll setting target table path nodes state = .ok after) :
    state.plan.entries <+: after.plan.entries ∧ ∀ plan, after.plan.entries <+: plan.entries →
      Gathers plan state after (reachedOfAll setting.registry plan [target] table path nodes) := by
  rcases walkOrAll_cases succeeded with ⟨rfl, rfl⟩ | ⟨-, walked⟩
  · exact ⟨List.prefix_refl _, fun plan _ => (Gathers.refl plan state).projected Scope.projectColumns_base rfl⟩
  · exact walk_gathers nodes walked

theorem subSelect_serves (succeeded : subSelect setting r c plan next deferred = .ok (s, after, following, further)) :
    plan.entries <+: after.entries ∧ ∀ whole, after.entries <+: whole.entries →
      r.Serves setting whole s (.ofDeferred c) ∧ further.map Collected.ofDeferred =
        (((Collected.ofDeferred c).reached setting.registry whole).filterMap (·.collected?)).foldl Collected.put
          (deferred.map Collected.ofDeferred) := by
  obtain ⟨target, reached, table, inside, found, joins, below, rfl, rfl, rfl, rfl⟩ := subSelect_cases succeeded
  obtain ⟨grown, entry, planned, number, same⟩ := join_planned joins
  obtain ⟨furthered, gathers⟩ := walkOrAll_gathers below
  refine ⟨grown.trans furthered, fun whole extends_ => ?_⟩
  have tableAt : whole.tableAt c.path c.subject = table := by
    rw [JoinPlan.tableAt, find?_of_prefix planned (furthered.trans extends_), ← number]
    rfl
  have isReached : (Collected.ofDeferred c).reached setting.registry whole =
      reachedOfAll setting.registry whole [target] table c.path c.nodes := by
    rw [← tableAt]
    simp only [Collected.reached, Collected.ofDeferred, found]
  obtain ⟨base, putDown⟩ := gathers whole extends_
  rw [isReached]
  have identified : IsUnrestricted (r.identified c plan).base := by
    rw [Root.identified, identities_base, Root.chained, addJoins_base]
    exact (start_isUnrestricted r c.enclosing).foldl_addJoin (plan.chainTo c.sourceTable)
  have begins : IsUnrestricted reached.scope.base := by
    rw [same]
    dsimp only [State.addJoin]
    rw [Scope.addJoin_base]
    exact identified.addJoin entry.join
  refine ⟨⟨rfl, rfl, rfl, ?_⟩, ?_⟩
  · rw [isReached]
    refine r.writes_finish begins ?_
    rw [Scope.projectJoinSide_base, Scope.projectIdentity_base]
    exact base
  · rw [same] at putDown
    exact putDown

/-- Statements of collections are made one after the other. -/
theorem subSelects_serve
    (succeeded : subSelects setting r collections plan next deferred = .ok (found, after, following, further)) :
    plan.entries <+: after.entries ∧ ∀ whole, after.entries <+: whole.entries →
      List.Forall₂ (r.Serves setting whole) found (collections.map Collected.ofDeferred) ∧
      further.map Collected.ofDeferred = ((collections.map Collected.ofDeferred).flatMap fun c =>
        (c.reached setting.registry whole).filterMap (·.collected?)).foldl Collected.put
          (deferred.map Collected.ofDeferred) := by
  induction collections generalizing plan next deferred found with
  | nil =>
      cases succeeded
      exact ⟨List.prefix_refl _, fun whole _ => ⟨.nil, rfl⟩⟩
  | cons c rest ih =>
      obtain ⟨⟨first, middle, number, between⟩, firstMade, succeeded⟩ := bind_eq_ok.mp succeeded
      obtain ⟨⟨later, last, final, remaining⟩, laterMade, succeeded⟩ := bind_eq_ok.mp succeeded
      cases succeeded
      obtain ⟨grown, serves⟩ := subSelect_serves firstMade
      obtain ⟨furthered, others⟩ := ih laterMade
      refine ⟨grown.trans furthered, fun whole extends_ => ?_⟩
      obtain ⟨here, putDown⟩ := serves whole (furthered.trans extends_)
      obtain ⟨each, putFurther⟩ := others whole extends_
      refine ⟨.cons here each, ?_⟩
      rw [putFurther, putDown, List.map_cons, List.flatMap_cons, List.foldl_append]

theorem rounds_serve {levels : Nat} (succeeded : rounds setting r levels deferred plan next = .ok (found, after)) :
    plan.entries <+: after.entries ∧ ∀ whole, after.entries <+: whole.entries →
      List.Forall₂ (r.Serves setting whole) found
        (collectedWithin setting.registry whole levels (deferred.map Collected.ofDeferred)) := by
  induction levels generalizing deferred plan next found with
  | zero =>
      cases succeeded
      exact ⟨List.prefix_refl _, fun whole _ => .nil⟩
  | succ levels ih =>
      unfold rounds at succeeded
      split at succeeded
      next none =>
        cases succeeded
        refine ⟨List.prefix_refl _, fun whole _ => ?_⟩
        rw [List.isEmpty_iff.mp none, List.map_nil, collectedWithin_nil]
        exact .nil
      next =>
        obtain ⟨⟨first, middle, number, between⟩, firstMade, succeeded⟩ := bind_eq_ok.mp succeeded
        obtain ⟨⟨later, last⟩, laterMade, succeeded⟩ := bind_eq_ok.mp succeeded
        cases succeeded
        obtain ⟨grown, serve⟩ := subSelects_serve firstMade
        obtain ⟨furthered, others⟩ := ih laterMade
        refine ⟨grown.trans furthered, fun whole extends_ => ?_⟩
        obtain ⟨each, putDown⟩ := serve whole (furthered.trans extends_)
        have below := others whole extends_
        rw [putDown] at below
        exact List.rel_append each below

def reachedFrom (registry : Registry) (plan : JoinPlan) (t : FilterTree) : List Reached :=
  reachedOfAll registry plan t.roots 0 "" t.nodes

def collectedFrom (registry : Registry) (plan : JoinPlan) (t : FilterTree) : List Collected :=
  collectedWithin registry plan (FilterNode.depthOfAll t.nodes + 1)
    (((reachedFrom registry plan t).filterMap (·.collected?)).foldl Collected.put [])

/-- The statement for the root rows takes what is reached from the roots, and then what holds of them. -/
theorem primary_base (succeeded : primary setting r t = .ok last) {whole : JoinPlan}
    (grown : last.plan.entries <+: whole.entries) :
    last.scope.base = r.root.constrainRoot r.others setting.pointInTime
      ((reachedFrom setting.registry whole t).foldl (Reached.onto whole) (r.start []).base) ∧
    last.deferred.map Collected.ofDeferred =
      ((reachedFrom setting.registry whole t).filterMap (·.collected?)).foldl Collected.put [] := by
  obtain ⟨inside, walked, succeeded⟩ := bind_eq_ok.mp succeeded
  cases succeeded
  obtain ⟨-, gathers⟩ := walk_gathers t.nodes walked
  obtain ⟨base, putDown⟩ := gathers whole grown
  have finished : (finishRoot r inside.scope).base = inside.scope.base := by
    unfold finishRoot
    cases r.root.discriminator with
    | none => exact Scope.projectIdentity_base
    | some d => exact Scope.projectColumn_base.trans Scope.projectIdentity_base
  have begun : (if t.nodes.isEmpty then (r.start []).projectColumns r.root.scalars 0 "" else r.start []).base =
      (r.start []).base := by
    split
    · exact Scope.projectColumns_base
    · rfl
  refine ⟨?_, putDown⟩
  dsimp only [State.mapScope]
  rw [Scope.constrainRoot_base, finished, base, begun]
  rfl

theorem primary_writes (succeeded : primary setting r t = .ok last) {whole : JoinPlan}
    (grown : last.plan.entries <+: whole.entries) :
    r.Writes setting whole (reachedFrom setting.registry whole t) last.scope.finish := by
  refine ⟨(r.start []).base, last.scope.finish.selected, last.scope.finish.grouping, start_isUnrestricted r [], ?_⟩
  rw [← (primary_base succeeded grown).1]
  exact Scope.finish_base

end Compile

open Compile in
/-- Each statement of a view is made of the nodes that it is reached with. -/
theorem compile_writes {registry : Registry} {settings : ViewSettings} {dialect : Sql.Dialect}
    {pointInTime : Option Timestamp} {page : Page} {t : FilterTree} {v : CompiledView}
    (compiled : compile registry settings dialect pointInTime page t = .ok v) :
    (∃ statement offset limit, v.primary = { statement with offset := offset, limit := limit } ∧
      (Root.ofTree settings t).Writes ⟨registry, pointInTime⟩ v.joinPlan (reachedFrom registry v.joinPlan t) statement) ∧
      List.Forall₂ ((Root.ofTree settings t).Serves ⟨registry, pointInTime⟩ v.joinPlan) v.subSelects
        (collectedFrom registry v.joinPlan t) := by
  obtain ⟨last, primary, compiled⟩ := bind_eq_ok.mp compiled
  obtain ⟨⟨found, plan⟩, collections, compiled⟩ := bind_eq_ok.mp compiled
  cases compiled
  obtain ⟨grown, serve⟩ := rounds_serve collections
  refine ⟨⟨_, _, _, rfl, primary_writes primary grown⟩, ?_⟩
  rw [collectedFrom, ← (primary_base primary grown).2]
  exact serve plan (List.prefix_refl _)

end ViewEngine
