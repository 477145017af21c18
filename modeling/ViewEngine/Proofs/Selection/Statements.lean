import ViewEngine.Proofs.Selection.Collections
import ViewEngine.Proofs.Selection.Columns

namespace ViewEngine

open Sql Compile JoinPlan

namespace Compile

def Projection.IsOwn (plan : JoinPlan) (roots : List Entity) (p : Projection) : Prop :=
  ∃ way es table path e a, plan.Leads roots way es table path ∧ e ∈ es ∧ e.Offers a ∧ a.columnAt? table path = some p

/-- What a statement for the elements of a collection offers, but for the keys of those around it. -/
def Collected.columns (registry : Registry) (plan : JoinPlan) (c : Collected) : List Projection :=
  match registry.targetOf c.subject with
  | .ok target =>
    let table := plan.tableAt c.path c.subject
    offeredOrAll registry plan target table c.path c.nodes ++ target.identityColumns table c.path ++
      target.sideColumns (c.subject.joinColumns.map (·.target)) table c.path
  | .error _ => []

/-- A statement for the elements of a collection, and what it selects. -/
structure Root.Selects (r : Root) (setting : Setting) (roots : List Entity) (plan : JoinPlan) (s : SubSelect)
    (c : Collected) : Prop where
  path : s.path = c.path
  aligned : s.part.IsAligned
  columns : ∃ outers : List JoinedCollection, s.enclosing = outers.map (·.describe) ∧
    (∀ outer ∈ outers, ∃ way, plan.Leads roots way [outer.entity] outer.table outer.path) ∧
    s.part.projections =
      putColumns (outers.flatMap (·.identityColumns) ++ c.columns setting.registry plan) [r.keyColumn]
  leads : ∃ way target, setting.registry.targetOf c.subject = .ok target ∧
    plan.Leads roots way [target] (plan.tableAt c.path c.subject) c.path
  planned : ArePlanned setting.registry plan (c.reached setting.registry plan)

theorem Root.Selects.exists_scalar {r : Root} {setting : Setting} {roots : List Entity} {plan : JoinPlan}
    {s : SubSelect}
    {c : Collected} {target : Entity} {a : Attribute} (selects : r.Selects setting roots plan s c)
    (childless : c.nodes = []) (isTarget : setting.registry.targetOf c.subject = .ok target)
    (scalar : a ∈ target.scalars) (stored : a.column.isSome = true) :
    ∃ b ∈ s.columns, b.label = Path.child c.path a.property := by
  obtain ⟨column, stored⟩ := Option.isSome_iff_exists.mp stored
  obtain ⟨outers, -, -, columns⟩ := selects.columns
  let p : Projection := ⟨.columnOf (plan.tableAt c.path c.subject) column,
    ⟨Path.child c.path a.property, some a, .value⟩⟩
  have isColumn : p ∈ target.scalarColumns (plan.tableAt c.path c.subject) c.path :=
    List.mem_filterMap.mpr ⟨a, scalar, by rw [Attribute.columnAt?, stored]; rfl⟩
  have offered : p ∈ c.columns setting.registry plan := by
    simp only [Collected.columns, isTarget, offeredOrAll, childless, List.isEmpty_nil, if_true]
    exact List.mem_append_left _ (List.mem_append_left _ isColumn)
  obtain ⟨q, selected, label⟩ := exists_putColumns [r.keyColumn] (List.mem_append_right _ offered)
  have inside : q.binding ∈ s.part.columns := by
    rw [selects.aligned.columns, columns]
    exact List.mem_map_of_mem selected
  exact ⟨q.binding, inside, label⟩

/-- A statement for the elements of a collection, as it is made: the scope that it comes from, and what that selects. -/
structure Root.Fills (r : Root) (setting : Setting) (plan : JoinPlan) (s : SubSelect) (c : DeferredCollection) :
    Prop where
  path : s.path = c.path
  enclosing : s.enclosing = c.enclosing.map (·.describe)
  scope : ∃ scope : Scope, s.statement = scope.finish ∧ s.columns = scope.columns ∧ scope.IsInStep ∧
    scope.projections =
      putColumns (c.enclosing.flatMap (·.identityColumns) ++
        (Collected.ofDeferred c).columns setting.registry plan) [r.keyColumn]
  target : ∃ target, setting.registry.targetOf c.subject = .ok target ∧ (plan.find? c.path c.subject.id).isSome = true
  planned : ArePlanned setting.registry plan ((Collected.ofDeferred c).reached setting.registry plan)

end Compile

/-- A part that selects what is offered for the nodes that it has reached, each column unless its label is taken. -/
structure Part.Shows (x : Part) (registry : Registry) (plan : JoinPlan) (roots : List Entity) (key : Projection)
    (reached : List Reached) (offered : List Projection) : Prop where
  aligned : x.IsAligned
  columns : x.projections = putColumns offered [key]
  cases : ∀ p ∈ offered, (∃ y ∈ reached, y.Asks p) ∨ p.IsOwn plan roots
  column : ∀ y ∈ reached, y.isColumn = true → ∀ column, y.subject.column = some column →
    ⟨.columnOf y.table column, ⟨y.alias, some y.subject, .value⟩⟩ ∈ offered
  count : ∀ y ∈ reached, y.item.aggregate.isSome = true → ∃ expr, ⟨expr, ⟨y.alias, none, .aggregate⟩⟩ ∈ offered
  leads : ∀ y ∈ reached, ∃ way es e above, plan.Leads roots way es y.table above ∧
    resolve? y.item es = some (e, y.subject) ∧ y.path = Path.child above y.subject.property
  planned : ArePlanned registry plan reached

def FilterTree.columns (registry : Registry) (plan : JoinPlan) (t : FilterTree) : List Projection :=
  (if t.nodes.isEmpty then t.root.scalarColumns 0 "" else []) ++ offeredOfAll registry plan t.roots 0 "" t.nodes ++
    t.root.identityColumns 0 "" ++ (t.root.discriminator.bind fun d => d.subject.columnAt? 0 "").toList

namespace Compile

section Leading

variable {setting : Setting} {plan : JoinPlan} {roots es : List Entity} {way : List JoinEntry} {table : Nat}
  {above path : String} {nodes : List FilterNode} {item : FilterItem} {x : Reached} {p : Projection} {e target : Entity}
  {a : Attribute} {columns : List String}

/-- An association that a node asks for is declared by the first entity that has the property. -/
theorem declared_of_resolve (addressable : setting.IsAddressable roots) (leads : plan.Leads roots way es table above)
    (found : resolve? item es = some (e, a)) (isTarget : setting.registry.targetOf a = .ok target) :
    declarer? es a.property = some (e, a) := by
  obtain ⟨-, held, -⟩ := resolve?_eq_some found
  have property : a.property = item.subject.property := by simpa using List.find?_some held
  rw [property]
  exact declarer?_of_resolve? (leads.agreed addressable.agreed) found (Registry.isAssociation_of_targetOf isTarget)

theorem leads_child (addressable : setting.IsAddressable roots) (built : plan.IsBuilt setting roots)
    (leads : plan.Leads roots way es table above) (declared : declarer? es a.property = some (e, a))
    (isTarget : setting.registry.targetOf a = .ok target)
    (planned : (plan.find? (Path.child above a.property) a.id).isSome = true) :
    ∃ way, plan.Leads roots way [target] (plan.tableAt (Path.child above a.property) a)
      (Path.child above a.property) := by
  obtain ⟨entry, isEntry⟩ := Option.isSome_iff_exists.mp planned
  have holds := List.find?_some isEntry
  rw [Bool.and_eq_true, beq_iff_eq, beq_iff_eq] at holds
  have joins := joins_of_path addressable built leads declared isTarget (List.mem_of_find?_eq_some isEntry) holds.1
  rw [JoinPlan.tableAt, isEntry]
  exact ⟨_, joins.leads leads declared⟩

/-- What is reached stands on rows that are joined under the number it says. -/
theorem IsReached.leads (addressable : setting.IsAddressable roots) (built : plan.IsBuilt setting roots)
    (reached : IsReached setting.registry plan es table above nodes x)
    (planned : ArePlanned setting.registry plan (reachedOfAll setting.registry plan es table above nodes))
    (leads : plan.Leads roots way es table above) : ∃ way es e above, plan.Leads roots way es x.table above ∧
      resolve? x.item es = some (e, x.subject) ∧ x.path = Path.child above x.subject.property := by
  induction reached generalizing way with
  | here member found => exact ⟨way, _, _, _, leads, found, rfl⟩
  | @further es table above nodes n e target a x member found plain single isTarget inside ih =>
      have joined : Reached.isJoined ⟨n.item, n.children, a, table, Path.child above a.property⟩ = true := by
        simp [Reached.isJoined, single, Registry.isAssociation_of_targetOf isTarget]
      obtain ⟨-, -, isPlanned⟩ := planned _ (mem_reachedOfAll_iff.mpr (.here member found)) joined
      obtain ⟨way, next⟩ := leads_child addressable built leads
        (declared_of_resolve addressable leads found isTarget) isTarget isPlanned
      refine ih (fun y below => planned y (mem_reachedOfAll_iff.mpr ?_)) next
      exact .further member found plain single isTarget (mem_reachedOfAll_iff.mp below)

section Own

variable (leads : plan.Leads roots way es table path) (member : e ∈ es)

include leads member

theorem isOwn_of_columnAt (offers : e.Offers a) (column : a.columnAt? table path = some p) : p.IsOwn plan roots :=
  ⟨way, es, table, path, e, a, leads, member, offers, column⟩

theorem isOwn_of_identityColumns (inside : p ∈ e.identityColumns table path) : p.IsOwn plan roots := by
  obtain ⟨a, key, column⟩ := List.mem_filterMap.mp inside
  refine isOwn_of_columnAt leads member ?_ column
  rcases List.mem_append.mp key with identity | opening
  · exact .attribute (Entity.mem_identityKeys_iff.mp identity).1
  · obtain ⟨version, declared, rfl⟩ := Option.map_eq_some_iff.mp (Option.mem_toList.mp opening)
    exact .opening declared

theorem isOwn_of_sideColumns (inside : p ∈ e.sideColumns columns table path) : p.IsOwn plan roots := by
  obtain ⟨a, side, column⟩ := List.mem_filterMap.mp inside
  obtain ⟨name, -, found⟩ := List.mem_filterMap.mp (List.mem_filter.mp side).1
  exact isOwn_of_columnAt leads member (.attribute (List.mem_of_find?_eq_some found)) column

theorem isOwn_of_scalarColumns (inside : p ∈ e.scalarColumns table path) : p.IsOwn plan roots := by
  obtain ⟨a, scalar, column⟩ := List.mem_filterMap.mp inside
  exact isOwn_of_columnAt leads member (.attribute (Entity.mem_attributes_of_scalar scalar)) column

end Own

theorem offeredOrAll_cases {nodes : List FilterNode} {registry : Registry}
    (offered : p ∈ offeredOrAll registry plan target table path nodes) :
    p ∈ target.scalarColumns table path ∨ p ∈ offeredOfAll registry plan [target] table path nodes := by
  unfold offeredOrAll at offered
  split at offered
  · exact .inl offered
  · exact .inr offered

mutual

theorem offeredOfAll_cases (addressable : setting.IsAddressable roots) (built : plan.IsBuilt setting roots)
    (nodes : List FilterNode) {way : List JoinEntry} {es : List Entity} {table : Nat} {above : String}
    (leads : plan.Leads roots way es table above)
    (planned : ArePlanned setting.registry plan (reachedOfAll setting.registry plan es table above nodes))
    (offered : p ∈ offeredOfAll setting.registry plan es table above nodes) :
    (∃ x ∈ reachedOfAll setting.registry plan es table above nodes, x.Asks p) ∨ p.IsOwn plan roots := by
  match nodes with
  | [] => contradiction
  | n :: rest =>
      obtain ⟨first, others⟩ := List.forall_mem_append.mp planned
      rcases List.mem_append.mp offered with here | later
      · refine (offeredOf_cases addressable built n leads first here).imp_left fun ⟨x, inside, asks⟩ => ?_
        exact ⟨x, List.mem_append_left _ inside, asks⟩
      · refine (offeredOfAll_cases addressable built rest leads others later).imp_left fun ⟨x, inside, asks⟩ => ?_
        exact ⟨x, List.mem_append_right _ inside, asks⟩

theorem offeredOf_cases (addressable : setting.IsAddressable roots) (built : plan.IsBuilt setting roots)
    (n : FilterNode) {way : List JoinEntry} {es : List Entity} {table : Nat} {above : String}
    (leads : plan.Leads roots way es table above)
    (planned : ArePlanned setting.registry plan (reachedOf setting.registry plan es table above n))
    (offered : p ∈ offeredOf setting.registry plan es table above n) :
    (∃ x ∈ reachedOf setting.registry plan es table above n, x.Asks p) ∨ p.IsOwn plan roots := by
  match n with
  | ⟨item, children⟩ =>
      cases found : resolve? item es with
      | none => simp [offeredOf, found] at offered
      | some pair =>
          obtain ⟨e, a⟩ := pair
          have member := (resolve?_eq_some found).1
          have source {columns : List String} (inside : p ∈ e.sideColumns columns table above) : p.IsOwn plan roots :=
            isOwn_of_sideColumns leads member inside
          cases counted : item.aggregate with
          | some aggregate =>
              cases isTarget : setting.registry.targetOf a with
              | error cause => simp [offeredOf, found, counted, isTarget] at offered
              | ok target =>
                  simp only [offeredOf, found, counted, isTarget, List.mem_singleton] at offered
                  refine .inl ⟨⟨item, children, a, table, Path.child above a.property⟩, ?_, ?_⟩
                  · simp [reachedOf, found, counted]
                  · rw [offered]
                    exact .count (by simp [counted]) _
          | none =>
              cases collection : a.isCollection with
              | true =>
                  cases isTarget : setting.registry.targetOf a <;>
                    (simp only [offeredOf, found, counted, isTarget, collection, if_true] at offered
                     exact .inr (source offered))
              | false =>
                  cases isTarget : setting.registry.targetOf a with
                  | error cause =>
                      simp only [offeredOf, found, counted, isTarget, collection, Bool.false_eq_true,
                        if_false] at offered
                      split at offered
                      next => contradiction
                      next column =>
                        obtain ⟨name, stored, rfl⟩ := Option.map_eq_some_iff.mp (Option.mem_toList.mp offered)
                        refine .inl ⟨⟨item, children, a, table, Path.child above a.property⟩, ?_, .column ?_ stored⟩
                        · simp [reachedOf, found, counted, collection, isTarget]
                        · simp [Reached.isColumn, counted, column]
                  | ok target =>
                      have isAssociation := Registry.isAssociation_of_targetOf isTarget
                      simp only [reachedOf, found, counted, collection, isTarget, Option.isSome_none, Bool.or_self,
                        Bool.false_eq_true, if_false] at planned ⊢
                      obtain ⟨here, below⟩ := List.forall_mem_cons.mp planned
                      obtain ⟨-, -, isPlanned⟩ := here (by simp [Reached.isJoined, isAssociation, collection])
                      obtain ⟨way, next⟩ := leads_child addressable built leads
                        (declared_of_resolve addressable leads found isTarget) isTarget isPlanned
                      simp only [offeredOf, found, counted, isTarget, collection, Bool.false_eq_true, if_false,
                        List.mem_append] at offered
                      rcases offered with ((inside | key) | side) | side
                      · rcases offeredOrAll_cases inside with scalar | asked
                        · exact .inr (isOwn_of_scalarColumns next (List.mem_singleton_self _) scalar)
                        · refine (offeredOfAll_cases addressable built children next below asked).imp_left
                            fun ⟨x, inside, asks⟩ => ⟨x, List.mem_cons_of_mem _ inside, asks⟩
                      · exact .inr (isOwn_of_identityColumns next (List.mem_singleton_self _) key)
                      · exact .inr (source side)
                      · exact .inr (isOwn_of_sideColumns next (List.mem_singleton_self _) side)

end

end Leading

section Statements

variable {setting : Setting} {roots : List Entity} {asked : FilterItem → Prop} {r : Root} {plan after : JoinPlan}
  {c : DeferredCollection} {collections deferred further : List DeferredCollection} {s : SubSelect}
  {next following : Nat}
  {found : List SubSelect} {t : FilterTree} {last : State}

/-- The statement of a collection is made of the keys of those around it, and what is offered from its elements on. -/
theorem subSelect_fills (succeeded : subSelect setting r c plan next deferred = .ok (s, after, following, further))
    {whole : JoinPlan} (grown : after.entries <+: whole.entries) : r.Fills setting whole s c := by
  obtain ⟨target, reached, table, inside, isTarget, joins, below, rfl, rfl, rfl, rfl⟩ := subSelect_cases succeeded
  obtain ⟨same, isPlanned⟩ := join_offers joins
  obtain ⟨planned, number⟩ := isPlanned whole ((walkOrAll_gathers below).1.trans grown)
  obtain ⟨identified, identities⟩ :=
    identities_projections ((start_isInStep r c.enclosing).addJoins (plan.chainTo c.sourceTable)) c.enclosing
  have reachedInStep : reached.scope.IsInStep := join_isInStep identified joins
  have enteredInStep : (reached.mapScope fun s =>
      { s with enclosing := s.enclosing ++ [⟨c.path, target, table⟩] }).scope.IsInStep := reachedInStep.changed rfl rfl
  have offers := walkOrAll_offers enteredInStep (walk_offers c.nodes enteredInStep) below whole grown
  have begun : reached.scope.projections = putColumns (c.enclosing.flatMap (·.identityColumns)) [r.keyColumn] := by
    rw [same]
    refine identities.trans (congrArg _ ?_)
    exact (Scope.addJoins_projections _).trans (start_projections r c.enclosing)
  have insideInStep := walkOrAll_isInStep enteredInStep below
  have keyed := insideInStep.projectIdentity target table c.path
  have sided := keyed.projectJoinSide target (c.subject.joinColumns.map (·.target)) table c.path
  refine ⟨rfl, rfl, ⟨_, rfl, rfl, sided.constrainRoot .., ?_⟩, ⟨target, isTarget, planned⟩, ?_⟩
  · rw [Scope.constrainRoot_projections, projectJoinSide_projections keyed, projectIdentity_projections insideInStep,
      offers.columns]
    dsimp only [State.mapScope]
    rw [Scope.projections_of_selected rfl, begun, ← putColumns_append, ← putColumns_append, ← putColumns_append]
    simp only [Collected.columns, Collected.ofDeferred, isTarget, number, List.append_assoc]
  · simp only [Collected.reached, Collected.ofDeferred, isTarget, number]
    exact offers.planned

/-- The statement of a collection selects what is offered from its elements on, behind the keys of those around it. -/
theorem subSelect_selects (addressable : setting.IsAddressable roots) (isDeferred : IsDeferred roots asked plan c)
    (grownFrom : plan.entries <+: after.entries)
    (succeeded : subSelect setting r c plan next deferred = .ok (s, after, following, further)) {whole : JoinPlan}
    (built : whole.IsBuilt setting roots) (grown : after.entries <+: whole.entries) :
    r.Selects setting roots whole s (.ofDeferred c) := by
  have all : plan.entries <+: whole.entries := grownFrom.trans grown
  obtain ⟨way, es, above, leads, declared, named, encloses⟩ := isDeferred.reached
  obtain ⟨path, enclosing, ⟨scope, made, columns, inStep, offered⟩, ⟨target, isTarget, planned⟩, arePlanned⟩ :=
    subSelect_fills succeeded grown
  obtain ⟨projections, aligned⟩ := projections_of_scope s.path scope s.statement inStep (by rw [made, Scope.finish_eq])
  have isPart : s.part = ⟨s.path, s.statement, scope.columns⟩ := by rw [SubSelect.part, columns]
  refine ⟨path, isPart ▸ aligned, ⟨c.enclosing, enclosing, fun outer member => ?_, ?_⟩, ?_, arePlanned⟩
  · obtain ⟨inner, -, leads⟩ := encloses outer member
    exact ⟨inner, leads.mono fun j there => all.subset there⟩
  · rw [isPart, projections, offered]
  · have leads := leads.mono fun j there => all.subset there
    dsimp only [Collected.ofDeferred]
    rw [named] at planned ⊢
    obtain ⟨way, next⟩ := leads_child addressable built leads declared isTarget planned
    exact ⟨way, target, isTarget, next⟩

theorem subSelects_select (addressable : setting.IsAddressable roots) (built : plan.IsBuilt setting roots)
    (follows : plan.IsNext next) (areDeferred : ∀ d ∈ collections, IsDeferred roots asked plan d)
    (others : ∀ d ∈ deferred, IsDeferred roots asked plan d)
    (succeeded : subSelects setting r collections plan next deferred = .ok (found, after, following, further))
    {whole : JoinPlan} (wholeBuilt : whole.IsBuilt setting roots) (grown : after.entries <+: whole.entries) :
    List.Forall₂ (r.Selects setting roots whole) found (collections.map Collected.ofDeferred) := by
  induction collections generalizing plan next deferred found with
  | nil =>
      cases succeeded
      exact .nil
  | cons c rest ih =>
      obtain ⟨⟨first, middle, number, between⟩, firstMade, succeeded⟩ := bind_eq_ok.mp succeeded
      obtain ⟨⟨later, last, final, remaining⟩, laterMade, succeeded⟩ := bind_eq_ok.mp succeeded
      cases succeeded
      have isFirst := areDeferred c (List.mem_cons_self ..)
      obtain ⟨middleBuilt, middleNext, grownFirst, betweenDeferred, -⟩ :=
        subSelect_made addressable built follows isFirst others firstMade
      have restDeferred : ∀ d ∈ rest, IsDeferred roots asked middle d := fun d member =>
        (areDeferred d (List.mem_cons_of_mem _ member)).mono grownFirst
      have grownLater :=
        (subSelects_made addressable middleBuilt middleNext restDeferred betweenDeferred laterMade).2.2.1
      exact .cons (subSelect_selects addressable isFirst grownFirst firstMade wholeBuilt (grownLater.trans grown))
        (ih middleBuilt middleNext restDeferred betweenDeferred laterMade)

theorem rounds_select (addressable : setting.IsAddressable roots) {levels : Nat} (built : plan.IsBuilt setting roots)
    (follows : plan.IsNext next) (areDeferred : ∀ d ∈ deferred, IsDeferred roots asked plan d)
    (succeeded : rounds setting r levels deferred plan next = .ok (found, after))
    (afterBuilt : after.IsBuilt setting roots) : List.Forall₂ (r.Selects setting roots after) found
      (collectedWithin setting.registry after levels (deferred.map Collected.ofDeferred)) := by
  induction levels generalizing deferred plan next found with
  | zero =>
      cases succeeded
      exact .nil
  | succ levels ih =>
      unfold rounds at succeeded
      split at succeeded
      next none =>
        cases succeeded
        rw [List.isEmpty_iff.mp none, List.map_nil, collectedWithin_nil]
        exact .nil
      next =>
        obtain ⟨⟨first, middle, number, between⟩, firstMade, succeeded⟩ := bind_eq_ok.mp succeeded
        obtain ⟨⟨later, last⟩, laterMade, succeeded⟩ := bind_eq_ok.mp succeeded
        cases succeeded
        have none : ∀ d ∈ ([] : List DeferredCollection), IsDeferred roots asked plan d := by simp
        obtain ⟨middleBuilt, middleNext, -, betweenDeferred, -⟩ :=
          subSelects_made addressable built follows areDeferred none firstMade
        have grown := (rounds_made addressable middleBuilt middleNext betweenDeferred laterMade).2.1
        have below := ih middleBuilt middleNext betweenDeferred laterMade
        rw [((subSelects_serve firstMade).2 _ grown).2] at below
        exact List.rel_append
          (subSelects_select addressable built follows areDeferred none firstMade afterBuilt grown) below

/-- The statement for the root rows selects what is offered from the roots on. -/
theorem primary_selects (root : r.root = t.root) (succeeded : primary setting r t = .ok last) {whole : JoinPlan}
    (grown : last.plan.entries <+: whole.entries) :
    last.scope.projections = putColumns (t.columns setting.registry whole) [r.keyColumn] ∧
      ArePlanned setting.registry whole (reachedFrom setting.registry whole t) := by
  unfold primary at succeeded
  dsimp only at succeeded
  obtain ⟨walked, walks, succeeded⟩ := bind_eq_ok.mp succeeded
  cases succeeded
  have begunInStep := begun_isInStep r t.nodes
  have offers := walk_offers t.nodes begunInStep walks whole grown
  have walkedInStep := walk_isInStep t.nodes begunInStep walks
  refine ⟨?_, offers.planned⟩
  have finished : (finishRoot r walked.scope).projections = putColumns (r.root.identityColumns 0 "" ++
      (r.root.discriminator.bind fun d => d.subject.columnAt? 0 "").toList) walked.scope.projections := by
    rw [putColumns_append, finishRoot]
    cases r.root.discriminator with
    | none => exact projectIdentity_projections walkedInStep
    | some d =>
        have one : ((walked.scope.projectIdentity r.root 0 "").projectColumns [d.subject] 0 "").projections = _ :=
          projectColumns_projections (walkedInStep.projectIdentity ..)
        rw [projectIdentity_projections walkedInStep] at one
        refine one.trans ?_
        cases stored : d.subject.columnAt? 0 "" <;> simp [stored]
  have begun : (if t.nodes.isEmpty then (r.start []).projectColumns r.root.scalars 0 "" else r.start []).projections =
      putColumns (if t.nodes.isEmpty then r.root.scalarColumns 0 "" else []) [r.keyColumn] := by
    split
    · rw [projectColumns_projections (start_isInStep r []), start_projections, Entity.scalarColumns]
    · exact start_projections r []
  dsimp only [State.mapScope]
  rw [Scope.constrainRoot_projections, finished, offers.columns, begun, ← putColumns_append, ← putColumns_append, root]
  simp only [FilterTree.columns, List.append_assoc]

end Statements

end Compile

section Compiled

variable {registry : Registry} {settings : ViewSettings} {dialect : Sql.Dialect} {pointInTime : Option Timestamp}
  {page : Page} {t : FilterTree} {v : CompiledView}

/-- Every statement of a view selects what its nodes offer. -/
theorem compile_selects (addressable : Setting.IsAddressable ⟨registry, pointInTime⟩ t.roots)
    (compiled : compile registry settings dialect pointInTime page t = .ok v) :
    (Part.IsAligned ⟨"", v.primary, v.columns⟩ ∧
      Part.projections ⟨"", v.primary, v.columns⟩ =
        putColumns (t.columns registry v.joinPlan) [(Root.ofTree settings t).keyColumn] ∧
      ArePlanned registry v.joinPlan (reachedFrom registry v.joinPlan t)) ∧
    List.Forall₂ ((Root.ofTree settings t).Selects ⟨registry, pointInTime⟩ t.roots v.joinPlan) v.subSelects
      (collectedFrom registry v.joinPlan t) := by
  obtain ⟨last, primary, compiled⟩ := bind_eq_ok.mp compiled
  obtain ⟨⟨found, plan⟩, collections, compiled⟩ := bind_eq_ok.mp compiled
  cases compiled
  obtain ⟨built, follows, areDeferred, -⟩ :=
    primary_made (r := Root.ofTree settings t) addressable rfl (fun _ member => member) primary
  obtain ⟨planBuilt, grown, -⟩ := rounds_made addressable built follows areDeferred collections
  obtain ⟨columns, planned⟩ := primary_selects (r := Root.ofTree settings t) rfl primary grown
  obtain ⟨projections, aligned⟩ := projections_of_scope "" last.scope
    { last.scope.finish with offset := page.offset, limit := page.limit.or settings.defaultLimit }
    (primary_isInStep primary) (by rw [Scope.finish_eq])
  refine ⟨⟨aligned, projections.trans columns, planned⟩, ?_⟩
  rw [collectedFrom, ← (primary_base primary grown).2]
  exact rounds_select addressable built follows areDeferred collections planBuilt

theorem exists_part (addressable : Setting.IsAddressable ⟨registry, pointInTime⟩ t.roots)
    (compiled : compile registry settings dialect pointInTime page t = .ok v) {part : String} {reached : List Reached}
    (isPart : IsReachedIn registry v.joinPlan t part reached) : ∃ x ∈ v.parts, x.path = part ∧ ∃ offered,
      Part.Shows x registry v.joinPlan t.roots (Root.ofTree settings t).keyColumn reached offered := by
  obtain ⟨built, -⟩ := compile_made addressable compiled
  obtain ⟨⟨aligned, columns, planned⟩, each⟩ := compile_selects addressable compiled
  rcases isPart with ⟨rfl, rfl⟩ | ⟨c, member, rfl, rfl⟩
  · refine ⟨_, List.mem_cons_self .., rfl, _, aligned, columns, fun p offered => ?_, fun y inside => ?_,
      fun y inside => ?_, fun y inside => ?_, planned⟩
    · have isRoot : t.root ∈ t.roots := List.mem_cons_self ..
      simp only [FilterTree.columns, List.mem_append] at offered
      rcases offered with ((scalar | asked) | key) | discriminator
      · split at scalar
        · exact .inr (isOwn_of_scalarColumns .root isRoot scalar)
        · contradiction
      · exact offeredOfAll_cases addressable built t.nodes .root planned asked
      · exact .inr (isOwn_of_identityColumns .root isRoot key)
      · obtain ⟨d, declared, column⟩ := Option.bind_eq_some_iff.mp (Option.mem_toList.mp discriminator)
        exact .inr (isOwn_of_columnAt .root isRoot (.discriminator declared) column)
    · intro isColumn column stored
      refine List.mem_append_left _ (List.mem_append_left _ (List.mem_append_right _ ?_))
      exact (mem_reachedOfAll_iff.mp inside).column_mem_offered isColumn stored
    · intro counted
      obtain ⟨target, found, -⟩ := planned y inside (by simp [Reached.isJoined, counted])
      obtain ⟨expr, offered⟩ := (mem_reachedOfAll_iff.mp inside).count_mem_offered counted found
      exact ⟨expr, List.mem_append_left _ (List.mem_append_left _ (List.mem_append_right _ offered))⟩
    · exact (mem_reachedOfAll_iff.mp inside).leads addressable built planned .root
  · obtain ⟨s, isStatement, path, aligned, ⟨outers, -, lead, columns⟩, ⟨way, target, isTarget, leads⟩, planned⟩ :=
      exists_of_mem_left each.flip member
    have whole : c.columns registry v.joinPlan =
        offeredOrAll registry v.joinPlan target (v.joinPlan.tableAt c.path c.subject) c.path c.nodes ++
          target.identityColumns (v.joinPlan.tableAt c.path c.subject) c.path ++
          target.sideColumns (c.subject.joinColumns.map (·.target)) (v.joinPlan.tableAt c.path c.subject) c.path := by
      simp only [Collected.columns, isTarget]
    have reached : c.reached registry v.joinPlan =
        reachedOfAll registry v.joinPlan [target] (v.joinPlan.tableAt c.path c.subject) c.path c.nodes := by
      simp only [Collected.reached, isTarget]
    rw [reached] at planned ⊢
    rw [whole] at columns
    have among {y : Reached} (inside : y ∈ reachedOfAll registry v.joinPlan [target]
        (v.joinPlan.tableAt c.path c.subject) c.path c.nodes) {p : Projection}
        (offered : p ∈ offeredOfAll registry v.joinPlan [target] (v.joinPlan.tableAt c.path c.subject) c.path c.nodes) :
        p ∈ outers.flatMap (·.identityColumns) ++
          (offeredOrAll registry v.joinPlan target (v.joinPlan.tableAt c.path c.subject) c.path c.nodes ++
            target.identityColumns (v.joinPlan.tableAt c.path c.subject) c.path ++
            target.sideColumns (c.subject.joinColumns.map (·.target)) (v.joinPlan.tableAt c.path c.subject)
              c.path) := by
      have filled : c.nodes.isEmpty = false := by
        cases nodes : c.nodes with
        | nil => simp [nodes, reachedOfAll] at inside
        | cons => rfl
      refine List.mem_append_right _ (List.mem_append_left _ (List.mem_append_left _ ?_))
      rw [offeredOrAll, filled]
      exact offered
    refine ⟨s.part, List.mem_cons_of_mem _ (List.mem_map_of_mem isStatement), path, _, aligned, columns,
      fun p offered => ?_, fun y inside isColumn column stored => ?_, fun y inside counted => ?_, fun y inside => ?_,
      planned⟩
    · simp only [List.mem_append] at offered
      rcases offered with outer | (asked | key) | side
      · obtain ⟨outer, around, key⟩ := List.mem_flatMap.mp outer
        obtain ⟨inner, leads⟩ := lead outer around
        exact .inr (isOwn_of_identityColumns leads (List.mem_singleton_self _) key)
      · rcases offeredOrAll_cases asked with scalar | asked
        · exact .inr (isOwn_of_scalarColumns leads (List.mem_singleton_self _) scalar)
        · exact offeredOfAll_cases addressable built c.nodes leads planned asked
      · exact .inr (isOwn_of_identityColumns leads (List.mem_singleton_self _) key)
      · exact .inr (isOwn_of_sideColumns leads (List.mem_singleton_self _) side)
    · exact among inside ((mem_reachedOfAll_iff.mp inside).column_mem_offered isColumn stored)
    · obtain ⟨other, found, -⟩ := planned y inside (by simp [Reached.isJoined, counted])
      obtain ⟨expr, offered⟩ := (mem_reachedOfAll_iff.mp inside).count_mem_offered counted found
      exact ⟨expr, among inside offered⟩
    · exact (mem_reachedOfAll_iff.mp inside).leads addressable built planned leads

end Compiled

end ViewEngine
