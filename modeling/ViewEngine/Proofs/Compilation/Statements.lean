import ViewEngine.Proofs.Compilation.Visits

namespace ViewEngine

open Compile JoinPlan

namespace Compile

variable {setting : Setting} {roots : List Entity} {asked : FilterItem → Prop} {r : Root}

/-- A statement of a collection begins with the joins that lead to it. -/
def Root.chained (r : Root) (c : DeferredCollection) (plan : JoinPlan) : Scope :=
  { r.start c.enclosing with
    statement := (plan.chainTo c.sourceTable).foldl Sql.Statement.addJoin (r.start c.enclosing).statement }

/-- The keys of the elements around a collection, in a statement that begins with the joins to it. -/
def Root.identified (r : Root) (c : DeferredCollection) (plan : JoinPlan) : Scope :=
  c.enclosing.foldl (fun s outer => s.projectIdentity outer.entity outer.table outer.path) (r.chained c plan)

/-- The statement of a collection, when the nodes below it have been visited. -/
def Root.completed (r : Root) (setting : Setting) (c : DeferredCollection) (target : Entity) (table : Nat) (s : Scope) :
    SubSelect :=
  let scope := (s.projectIdentity target table c.path).projectJoinSide target
    (c.subject.joinColumns.map (·.target)) table c.path
  { path := c.path
    statement := Scope.finish { scope with
      statement := r.root.constrainRoot r.others setting.pointInTime scope.statement }
    columns := scope.columns
    enclosing := c.enclosing.map (·.describe)
    rootKey := r.key
    rootKeyType := r.keyType }

/-- A collection is joined and entered, and then the nodes below it are visited. -/
theorem subSelect_cases {c : DeferredCollection} {plan after : JoinPlan} {next following : Nat}
    {deferred further : List DeferredCollection} {s : SubSelect}
    (succeeded : subSelect setting r c plan next deferred = .ok (s, after, following, further)) :
    ∃ target reached table inside, setting.registry.targetOf c.subject = .ok target ∧
      State.join ⟨r.identified c plan, plan, next, deferred⟩ setting c.path c.subject c.sourceEntity c.sourceTable =
        .ok (reached, table) ∧
      walkOrAll setting target table c.path c.nodes (reached.mapScope fun s =>
        { s with enclosing := s.enclosing ++ [⟨c.path, target, table⟩] }) = .ok inside ∧
      s = r.completed setting c target table inside.scope ∧ after = inside.plan ∧ following = inside.nextTable ∧
      further = inside.deferred := by
  unfold subSelect at succeeded
  obtain ⟨target, leads, succeeded⟩ := bind_eq_ok.mp succeeded
  obtain ⟨⟨reached, table⟩, joins, succeeded⟩ := bind_eq_ok.mp succeeded
  obtain ⟨inside, walked, succeeded⟩ := bind_eq_ok.mp succeeded
  cases succeeded
  exact ⟨target, reached, table, inside, leads, joins, walked, rfl, rfl, rfl, rfl⟩

/-- The state in which the statement of a view is begun. -/
inductive Begins (setting : Setting) (roots : List Entity) (asked : FilterItem → Prop) (r : Root) : State → Prop
  | primary : Begins setting roots asked r ⟨r.start [], {}, 1, []⟩
  | collection {c : DeferredCollection} {plan : JoinPlan} {next : Nat} {deferred : List DeferredCollection}
      (built : plan.IsBuilt setting roots) (follows : plan.IsNext next) (isDeferred : IsDeferred roots asked plan c)
      (others : ∀ d ∈ deferred, IsDeferred roots asked plan d) :
      Begins setting roots asked r ⟨r.chained c plan, plan, next, deferred⟩

/-- A statement of a view with its columns, and how it came about. -/
structure IsMade (setting : Setting) (roots : List Entity) (asked : FilterItem → Prop) (r : Root)
    (whole : JoinPlan) (statement : Sql.Statement) (columns : List ColumnBinding) : Prop where
  made : ∃ start last, Begins setting roots asked r start ∧
    Relation.ReflTransGen (Visit setting roots asked) start last ∧ last.plan.entries <+: whole.entries ∧
    statement = Scope.finish { last.scope with
      statement := r.root.constrainRoot r.others setting.pointInTime last.scope.statement } ∧
    columns = last.scope.columns

theorem IsMade.mono {plan whole : JoinPlan} {statement : Sql.Statement} {columns : List ColumnBinding}
    (made : IsMade setting roots asked r plan statement columns) (grown : plan.entries <+: whole.entries) :
    IsMade setting roots asked r whole statement columns := by
  obtain ⟨start, last, begins, visits, planned, form, labels⟩ := made.made
  exact ⟨start, last, begins, visits, planned.trans grown, form, labels⟩

section Begin

variable {plan : JoinPlan} {entries : List JoinEntry} {s : Sql.Statement} {x : Sql.Join}

theorem mem_foldl_addJoin {joins : List Sql.Join} (member : x ∈ (joins.foldl Sql.Statement.addJoin s).joins) :
    x ∈ s.joins ∨ x ∈ joins := by
  induction joins generalizing s with
  | nil => exact .inl member
  | cons join rest ih =>
      rcases ih member with old | later
      · rcases mem_addJoin old with before | rfl
        · exact .inl before
        · exact .inr (List.mem_cons_self ..)
      · exact .inr (List.mem_cons_of_mem _ later)

theorem subset_foldl_addJoin (joins : List Sql.Join) (s : Sql.Statement) :
    s.joins ⊆ (joins.foldl Sql.Statement.addJoin s).joins := by
  induction joins generalizing s with
  | nil => exact List.Subset.refl _
  | cons join rest ih => exact List.Subset.trans (subset_addJoin s join) (ih _)

/-- Entries of the plan are in the statement once their joins have been added. -/
theorem mem_foldl_addJoin_self (built : plan.IsBuilt setting roots) (planned : ∀ j ∈ entries, j ∈ plan.entries)
    (joins : ∀ x ∈ s.joins, ∃ j ∈ plan.entries, j.join = x) :
    ∀ j ∈ entries, j.join ∈ ((entries.map (·.join)).foldl Sql.Statement.addJoin s).joins := by
  induction entries generalizing s with
  | nil => simp
  | cons first rest ih =>
      have firstPlanned := planned first (List.mem_cons_self ..)
      have joinsNext : ∀ x ∈ (s.addJoin first.join).joins, ∃ j ∈ plan.entries, j.join = x := by
        intro x member
        rcases mem_addJoin member with old | rfl
        · exact joins x old
        · exact ⟨first, firstPlanned, rfl⟩
      intro j inside
      rcases List.mem_cons.mp inside with rfl | later
      · exact subset_foldl_addJoin (rest.map (·.join)) _ (mem_addJoin_self built joins firstPlanned)
      · exact ih (fun k member => planned k (List.mem_cons_of_mem _ member)) joinsNext j later

theorem Begins.isBuilt {state : State} (begins : Begins setting roots asked r state) :
    state.IsBuilt setting roots asked := by
  have noJoins {enclosing : List JoinedCollection} : (r.start enclosing).statement.joins = [] := by
    rw [Root.start, Scope.project_joins]
    rfl
  cases begins with
  | primary =>
      refine ⟨isBuilt_empty, .empty, start_isInStep r [], fun x member => ?_,
        fun c none => absurd none List.not_mem_nil⟩
      rw [noJoins] at member
      contradiction
  | collection built follows isDeferred others =>
      refine ⟨built, follows, (start_isInStep r _).addJoins _, fun x member => ?_, others⟩
      obtain ⟨way, es, above, leads, -⟩ := isDeferred.reached
      rcases mem_foldl_addJoin member with old | joined
      · rw [noJoins] at old
        contradiction
      · rw [chainTo_eq built leads] at joined
        obtain ⟨j, inside, rfl⟩ := List.mem_map.mp joined
        exact ⟨j, leads.members j inside, rfl⟩

end Begin

section Collections

variable {c : DeferredCollection} {plan after : JoinPlan} {next following : Nat}
  {deferred further : List DeferredCollection} {s : SubSelect} {state last : State} {way : List JoinEntry}
  {es : List Entity} {table : Nat} {path : String}

theorem identities_walked (addressable : setting.IsAddressable roots)
    (built : state.IsBuilt setting roots asked) {outers : List JoinedCollection}
    (stand : ∀ outer ∈ outers, ∃ inner, Stands roots state inner [outer.entity] outer.table outer.path) :
    Walked setting roots asked state (state.mapScope fun s =>
      outers.foldl (fun s outer => s.projectIdentity outer.entity outer.table outer.path) s) := by
  induction outers generalizing state with
  | nil => exact .refl _
  | cons outer rest ih =>
      obtain ⟨inner, stands⟩ := stand outer (List.mem_cons_self ..)
      have first := projectIdentity_walked addressable built stands (List.mem_singleton_self _)
      refine first.trans (ih (first.built addressable built) fun other member => ?_)
      obtain ⟨inner, stands⟩ := stand other (List.mem_cons_of_mem _ member)
      exact ⟨inner, stands.mono (first.grown addressable built)⟩

theorem walkOrAll_walked (addressable : setting.IsAddressable roots) (built : state.IsBuilt setting roots asked)
    {target : Entity} {nodes : List FilterNode} (within : StandsWithin roots state way [target] table path)
    (isAsked : ∀ item ∈ FilterNode.itemsOfAll nodes, asked item)
    (succeeded : walkOrAll setting target table path nodes state = .ok last) :
    Walked setting roots asked state last :=
  walkOrAll_of_walked addressable built within (walk_walked addressable nodes built within isAsked) succeeded

theorem chained_within (built : plan.IsBuilt setting roots) {above : String}
    (leads : plan.Leads roots way es c.sourceTable above)
    (encloses : ∀ outer ∈ c.enclosing, Encloses plan roots way outer) :
    StandsWithin roots ⟨r.chained c plan, plan, next, deferred⟩ way es c.sourceTable above := by
  have enclosing : (r.chained c plan).enclosing = c.enclosing := by
    rw [Root.chained, Root.start]
    exact Scope.project_enclosing
  refine ⟨⟨leads, fun j inside => ?_⟩, fun outer member => encloses outer (enclosing ▸ member)⟩
  dsimp only [Root.chained]
  rw [chainTo_eq built leads]
  refine mem_foldl_addJoin_self built leads.members (fun x member => ?_) j inside
  rw [Root.start, Scope.project_joins] at member
  contradiction

theorem enter_walked (addressable : setting.IsAddressable roots) (built : state.IsBuilt setting roots asked)
    {target : Entity} (within : StandsWithin roots state way [target] table path) :
    ∃ entered, entered = state.mapScope (fun s => { s with enclosing := s.enclosing ++ [⟨path, target, table⟩] }) ∧
      Relation.ReflTransGen (Visit setting roots asked) state entered ∧ entered.IsBuilt setting roots asked ∧
      StandsWithin roots entered way [target] table path := by
  have visit : Visit setting roots asked state _ := .enter (c := ⟨path, target, table⟩) within.stands
  obtain ⟨isBuilt, grown⟩ := visit.built_grown addressable built
  refine ⟨_, rfl, .single visit, isBuilt, within.stands.mono grown, fun outer member => ?_⟩
  rcases List.mem_append.mp member with old | new
  · exact within.encloses outer old
  · rw [List.mem_singleton.mp new]
    exact ⟨way, List.prefix_refl _, within.stands.leads⟩

/-- The statement of a collection is made from where the collection was put down. -/
theorem subSelect_made (addressable : setting.IsAddressable roots) (built : plan.IsBuilt setting roots)
    (follows : plan.IsNext next) (isDeferred : IsDeferred roots asked plan c)
    (others : ∀ d ∈ deferred, IsDeferred roots asked plan d)
    (succeeded : subSelect setting r c plan next deferred = .ok (s, after, following, further)) :
    after.IsBuilt setting roots ∧ after.IsNext following ∧ plan.entries <+: after.entries ∧
      (∀ d ∈ further, IsDeferred roots asked after d) ∧
      IsMade setting roots asked r after s.statement s.columns ∧ s.rootKey = r.key := by
  have begins := Begins.collection (r := r) built follows isDeferred others
  have beginsBuilt := begins.isBuilt
  obtain ⟨way, es, above, leads, declared, named, encloses⟩ := isDeferred.reached
  have within : StandsWithin roots ⟨r.chained c plan, plan, next, deferred⟩ way es c.sourceTable above :=
    chained_within built leads encloses
  have stand : ∀ outer ∈ c.enclosing, ∃ inner, Stands roots ⟨r.chained c plan, plan, next, deferred⟩ inner
      [outer.entity] outer.table outer.path := by
    intro outer member
    obtain ⟨inner, earlier, leads⟩ := encloses outer member
    exact ⟨inner, leads, fun j inside => within.stands.joined j (earlier.subset inside)⟩
  have identified := identities_walked addressable beginsBuilt stand
  obtain ⟨target, reached, table, inside, found, joins, below, rfl, rfl, rfl, rfl⟩ := subSelect_cases succeeded
  rw [named] at joins
  obtain ⟨joinWalked, reachedBuilt, -, j, there⟩ := join_walked addressable
    (identified.built addressable beginsBuilt) (within.walked addressable beginsBuilt identified) declared found joins
  rw [← named] at there
  obtain ⟨entered, isEntered, enter, enteredBuilt, inEntered⟩ := enter_walked addressable reachedBuilt there
  have walked := walkOrAll_walked addressable enteredBuilt inEntered isDeferred.asked (isEntered ▸ below)
  have insideBuilt := walked.built addressable enteredBuilt
  have inInside := inEntered.walked addressable enteredBuilt walked
  have identity := projectIdentity_walked addressable insideBuilt inInside.stands (List.mem_singleton_self target)
  have side := projectJoinSide_walked addressable (identity.built addressable insideBuilt)
    (inInside.walked addressable insideBuilt identity).stands (List.mem_singleton_self target)
    (c.subject.joinColumns.map (·.target))
  have visits := ((((identified.visits.trans joinWalked.visits).trans enter).trans walked.visits).trans
    identity.visits).trans side.visits
  obtain ⟨lastBuilt, grown⟩ := visits_built_grown addressable beginsBuilt visits
  exact ⟨lastBuilt.plan, lastBuilt.next, grown.plan, lastBuilt.deferred,
    ⟨⟨_, _, begins, visits, List.prefix_refl _, rfl, rfl⟩⟩, rfl⟩

/-- Statements of collections are made one after the other, and share one plan. -/
theorem subSelects_made (addressable : setting.IsAddressable roots) {collections : List DeferredCollection}
    (built : plan.IsBuilt setting roots) (follows : plan.IsNext next)
    (areDeferred : ∀ d ∈ collections, IsDeferred roots asked plan d)
    (others : ∀ d ∈ deferred, IsDeferred roots asked plan d) {found : List SubSelect}
    (succeeded : subSelects setting r collections plan next deferred = .ok (found, after, following, further)) :
    after.IsBuilt setting roots ∧ after.IsNext following ∧ plan.entries <+: after.entries ∧
      (∀ d ∈ further, IsDeferred roots asked after d) ∧
      ∀ s ∈ found, IsMade setting roots asked r after s.statement s.columns ∧ s.rootKey = r.key := by
  induction collections generalizing plan next deferred found with
  | nil =>
      cases succeeded
      exact ⟨built, follows, List.prefix_refl _, others, fun s none => absurd none List.not_mem_nil⟩
  | cons c rest ih =>
      obtain ⟨⟨first, middle, number, between⟩, firstMade, succeeded⟩ := bind_eq_ok.mp succeeded
      obtain ⟨⟨later, last, final, remaining⟩, laterMade, succeeded⟩ := bind_eq_ok.mp succeeded
      cases succeeded
      obtain ⟨middleBuilt, middleNext, grown, betweenDeferred, made, rootKey⟩ :=
        subSelect_made addressable built follows (areDeferred c (List.mem_cons_self ..)) others firstMade
      obtain ⟨lastBuilt, lastNext, grownFurther, remainingDeferred, allMade⟩ := ih middleBuilt middleNext
        (fun d member => (areDeferred d (List.mem_cons_of_mem _ member)).mono grown) betweenDeferred laterMade
      refine ⟨lastBuilt, lastNext, grown.trans grownFurther, remainingDeferred, fun s member => ?_⟩
      rcases List.mem_cons.mp member with rfl | inLater
      · exact ⟨made.mono grownFurther, rootKey⟩
      · exact allMade s inLater

theorem rounds_made (addressable : setting.IsAddressable roots) {fuel : Nat} (built : plan.IsBuilt setting roots)
    (follows : plan.IsNext next) (areDeferred : ∀ d ∈ deferred, IsDeferred roots asked plan d) {found : List SubSelect}
    (succeeded : rounds setting r fuel deferred plan next = .ok (found, after)) :
    after.IsBuilt setting roots ∧ plan.entries <+: after.entries ∧
      ∀ s ∈ found, IsMade setting roots asked r after s.statement s.columns ∧ s.rootKey = r.key := by
  induction fuel generalizing deferred plan next found with
  | zero =>
      cases succeeded
      exact ⟨built, List.prefix_refl _, fun s none => absurd none List.not_mem_nil⟩
  | succ fuel ih =>
      unfold rounds at succeeded
      split at succeeded
      · cases succeeded
        exact ⟨built, List.prefix_refl _, fun s none => absurd none List.not_mem_nil⟩
      · obtain ⟨⟨first, middle, number, between⟩, firstMade, succeeded⟩ := bind_eq_ok.mp succeeded
        obtain ⟨⟨later, last⟩, laterMade, succeeded⟩ := bind_eq_ok.mp succeeded
        cases succeeded
        obtain ⟨middleBuilt, middleNext, grown, betweenDeferred, made⟩ := subSelects_made addressable built follows
          areDeferred
          (fun d none => absurd none List.not_mem_nil) firstMade
        obtain ⟨lastBuilt, grownFurther, allMade⟩ := ih middleBuilt middleNext betweenDeferred laterMade
        refine ⟨lastBuilt, grown.trans grownFurther, fun s member => ?_⟩
        rcases List.mem_append.mp member with inFirst | inLater
        · exact ⟨(made s inFirst).1.mono grownFurther, (made s inFirst).2⟩
        · exact allMade s inLater

end Collections

section Primary

variable {t : FilterTree} {last : State}

theorem finishRoot_walked {state : State} (addressable : setting.IsAddressable roots)
    (built : state.IsBuilt setting roots asked) (stands : Stands roots state [] roots 0 "") (member : r.root ∈ roots) :
    Walked setting roots asked state (state.mapScope (finishRoot r)) := by
  have identity := projectIdentity_walked addressable built stands member
  unfold finishRoot
  cases declared : r.root.discriminator with
  | none => exact identity
  | some d =>
      exact identity.trans (.of_visit (.column (stands.mono (identity.grown addressable built)) member
        (.discriminator declared)) Scope.projectColumn_enclosing)

theorem primary_made (addressable : setting.IsAddressable t.roots) (root : r.root = t.root)
    (isAsked : ∀ item ∈ FilterNode.itemsOfAll t.nodes, asked item)
    (succeeded : primary setting r t = .ok last) : last.plan.IsBuilt setting t.roots ∧
      last.plan.IsNext last.nextTable ∧
      (∀ d ∈ last.deferred, IsDeferred t.roots asked last.plan d) ∧
      IsMade setting t.roots asked r last.plan last.scope.finish last.scope.columns := by
  have begins : Begins setting t.roots asked r ⟨r.start [], {}, 1, []⟩ := .primary
  have beginsBuilt := begins.isBuilt
  have isRoot : r.root ∈ t.roots := root ▸ List.mem_cons_self ..
  have within : StandsWithin t.roots ⟨r.start [], {}, 1, []⟩ [] t.roots 0 "" := by
    refine ⟨⟨.root, fun j none => absurd none List.not_mem_nil⟩, fun outer member => ?_⟩
    rw [Root.start, Scope.project_enclosing] at member
    contradiction
  obtain ⟨inside, walked, succeeded⟩ := bind_eq_ok.mp succeeded
  cases succeeded
  have all : Walked setting t.roots asked ⟨r.start [], {}, 1, []⟩ inside := by
    split at walked
    · have first := projectColumns_walked addressable beginsBuilt within.stands isRoot
        fun a scalar => .attribute (Entity.mem_attributes_of_scalar (e := r.root) scalar)
      exact first.trans (walk_walked addressable t.nodes (first.built addressable beginsBuilt)
        (within.walked addressable beginsBuilt first) isAsked walked)
    · exact walk_walked addressable t.nodes beginsBuilt within isAsked walked
  have finished := all.trans (finishRoot_walked addressable (all.built addressable beginsBuilt)
    (within.walked addressable beginsBuilt all).stands isRoot)
  have lastBuilt := finished.built addressable beginsBuilt
  exact ⟨lastBuilt.plan, lastBuilt.next, lastBuilt.deferred,
    ⟨⟨_, _, begins, finished.visits, List.prefix_refl _, rfl, rfl⟩⟩⟩

end Primary

/-- What every statement of the view of a tree begins with. -/
def Root.ofTree (settings : ViewSettings) (t : FilterTree) : Root where
  root := t.root
  others := t.otherRoots
  key := t.root.rootKey settings.keyDelimiter
  keyAlias := settings.rootKeyAlias
  keyType := t.root.rootKeyType

end Compile

open Compile in
/-- All statements of a view are made by visits, over one plan. -/
theorem compile_made {registry : Registry} {settings : ViewSettings} {dialect : Sql.Dialect}
    {pointInTime : Option Timestamp} {page : Page} {t : FilterTree} {v : CompiledView}
    (addressable : Setting.IsAddressable ⟨registry, pointInTime⟩ t.roots)
    (compiled : compile registry settings dialect pointInTime page t = .ok v) :
    v.joinPlan.IsBuilt ⟨registry, pointInTime⟩ t.roots ∧ v.roots = t.roots ∧
      (∃ statement offset limit, v.primary = { statement with offset := offset, limit := limit } ∧
        IsMade ⟨registry, pointInTime⟩ t.roots (· ∈ FilterNode.itemsOfAll t.nodes) (.ofTree settings t) v.joinPlan
          statement v.columns) ∧
      ∀ s ∈ v.subSelects, IsMade ⟨registry, pointInTime⟩ t.roots (· ∈ FilterNode.itemsOfAll t.nodes)
        (.ofTree settings t) v.joinPlan s.statement s.columns ∧ s.rootKey = t.root.rootKey settings.keyDelimiter := by
  obtain ⟨last, primary, compiled⟩ := bind_eq_ok.mp compiled
  obtain ⟨⟨found, plan⟩, collections, compiled⟩ := bind_eq_ok.mp compiled
  cases compiled
  have isAsked : ∀ item ∈ FilterNode.itemsOfAll t.nodes, item ∈ FilterNode.itemsOfAll t.nodes := fun _ member => member
  obtain ⟨built, follows, areDeferred, made⟩ := primary_made addressable rfl isAsked primary
  obtain ⟨planBuilt, grown, allMade⟩ := rounds_made addressable built follows areDeferred collections
  exact ⟨planBuilt, rfl, ⟨_, _, _, rfl, made.mono grown⟩, allMade⟩

end ViewEngine
