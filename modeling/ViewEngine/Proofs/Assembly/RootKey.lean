import ViewEngine.Proofs.Assembly.Merged
import ViewEngine.Proofs.Compilation.Labels

namespace ViewEngine

open Compile

namespace Row

variable {key : String} {properties : List String} {value : Value} {row : Row}

theorem get?_place_of_ne (different : properties.head? ≠ some key) (row : Row) :
    (place value properties row).get? key = row.get? key := by
  cases properties with
  | nil => rfl
  | cons property rest =>
      have apart : key ≠ property := fun same => different (congrArg some same.symm)
      cases rest with
      | nil => exact Keyed.get?_insert_of_ne apart ..
      | cons next others =>
          unfold place
          split <;> exact Keyed.get?_insert_of_ne apart ..

theorem get?_startAll_of_ne {places : List (List String)} (different : ∀ p ∈ places, p.head? ≠ some key) (row : Row) :
    (startAll places row).get? key = row.get? key := by
  induction places generalizing row with
  | nil => rfl
  | cons p rest ih =>
      refine (ih (fun q later => different q (List.mem_cons_of_mem _ later)) _).trans ?_
      dsimp only
      cases before : row.slot? p with
      | none => rw [startCollection_of_none before]
      | some held =>
          obtain ⟨written, writes⟩ := exists_writes before (.list [])
          rw [startCollection_of_writes writes]
          exact writes.get?_of_ne (different p (List.mem_cons_self ..))

theorem get?_collapseFields (row : Row) (key : String) :
    Keyed.get? (Value.collapseFields row) key = (row.get? key).map Value.collapse := by
  induction row with
  | nil => rfl
  | cons field rest ih =>
      obtain ⟨property, value⟩ := field
      rw [Value.collapseFields, Value.collapseField, Keyed.get?, Keyed.get?]
      split
      · rfl
      · exact ih

def read (result : Row) (label : String) : Value :=
  (result.get? label).getD .null

theorem get?_ofColumns {columns : List ColumnBinding} {key : String} {kind : ColumnKind} (result : Row)
    (plain : propertiesOf key = [key]) (selected : ⟨key, none, kind⟩ ∈ columns)
    (others : ∀ b ∈ columns, b ≠ ⟨key, none, kind⟩ → (propertiesOf b.label).head? ≠ some key) :
    (ofColumns columns result).get? key = some (result.read key) := by
  suffices ∀ row : Row, (⟨key, none, kind⟩ ∈ columns ∨ row.get? key = some (result.read key)) →
      Keyed.get? (columns.foldl (fun row b => place (b.coerce ((result.get? b.label).getD .null))
        (propertiesOf b.label) row) row) key = some (result.read key) from this [] (.inl selected)
  clear selected
  induction columns with
  | nil => exact fun row holds => holds.resolve_left List.not_mem_nil
  | cons b rest ih =>
      intro row holds
      refine ih (fun c later => others c (List.mem_cons_of_mem _ later)) _ ?_
      by_cases own : b = ⟨key, none, kind⟩
      · subst own
        dsimp only
        rw [plain]
        exact .inr (Keyed.get?_insert_self ..)
      · dsimp only
        rw [get?_place_of_ne (others b (List.mem_cons_self ..) own)]
        exact holds.imp_left fun member => (List.mem_cons.mp member).resolve_left (Ne.symm own)

end Row

namespace Compile

variable {setting : Setting} {roots : List Entity} {asked : FilterItem → Prop} {r : Root} {plan : JoinPlan}
  {b : ColumnBinding} {s : Scope} {state after : State}

structure Gains (before after : List Projection) : Prop where
  kept : before ⊆ after
  others : ∀ p ∈ after, p ∈ before ∨ p.binding.kind ≠ .rootKey

theorem Gains.refl (before : List Projection) : Gains before before :=
  ⟨List.Subset.refl _, fun _ => .inl⟩

theorem Gains.trans {before middle last : List Projection} (first : Gains before middle) (second : Gains middle last) :
    Gains before last where
  kept := List.Subset.trans first.kept second.kept
  others p member := (second.others p member).elim (first.others p) .inr

theorem putColumn_gains {p : Projection} (noKey : p.binding.kind ≠ .rootKey) (before : List Projection) :
    Gains before (putColumn p before) := by
  unfold putColumn
  split
  · exact .refl _
  · exact ⟨List.subset_append_left _ _, fun q member =>
      (List.mem_append.mp member).imp_right fun new => by rwa [List.mem_singleton.mp new]⟩

theorem projectColumn_gains (inStep : s.IsInStep) {a : Attribute} {table : Nat} {path : String} :
    Gains s.projections (s.projectColumn a table path).projections := by
  unfold Scope.projectColumn
  split
  · rw [inStep.projections_project]
    exact putColumn_gains (by rintro ⟨⟩) _
  · exact .refl _

theorem walkColumn_gains (inStep : state.scope.IsInStep) {item : FilterItem} {a : Attribute} {table : Nat}
    {path : String} :
    Gains state.scope.projections (walkColumn item a table path state).scope.projections := by
  rw [walkColumn_projections inStep]
  split
  · exact putColumn_gains (by rintro ⟨⟩) _
  · exact .refl _

theorem Visit.gains (addressable : setting.IsAddressable roots) (built : state.IsBuilt setting roots asked)
    (visit : Visit setting roots asked state after) : Gains state.scope.projections after.scope.projections := by
  cases visit with
  | join stands declared found joins =>
      obtain ⟨j, plan, number, rfl, -⟩ := join_eq addressable built.plan built.next stands.leads declared found joins
      exact (Scope.addJoin_projections j.join).symm ▸ .refl _
  | column => exact projectColumn_gains built.scope
  | item => exact walkColumn_gains built.scope
  | aggregate =>
      rw [State.mapScope, built.scope.projections_project]
      exact putColumn_gains (by rintro ⟨⟩) _
  | defer => exact .refl _
  | enter => exact .refl _

theorem visits_gain (addressable : setting.IsAddressable roots) (built : state.IsBuilt setting roots asked)
    (visits : Relation.ReflTransGen (Visit setting roots asked) state after) :
    Gains state.scope.projections after.scope.projections := by
  induction visits with
  | refl => exact .refl _
  | tail before visit ih => exact ih.trans (visit.gains addressable (visits_built_grown addressable built before).1)

theorem Begins.key (begins : Begins setting roots asked r state) :
    state.scope.projections = [⟨r.key, ⟨r.keyAlias, none, .rootKey⟩⟩] := by
  cases begins with
  | primary => rfl
  | collection => exact Scope.addJoins_projections _

/-- A statement selects its columns, the key among them and nothing else as a key. -/
theorem IsMade.selects {statement : Sql.Statement} {columns : List ColumnBinding}
    (addressable : setting.IsAddressable roots) (made : IsMade setting roots asked r plan statement columns) :
    ∃ projections : List Projection, statement.selected = projections.map (fun p => ⟨p.expr, some p.binding.label⟩) ∧
      columns = projections.map (·.binding) ∧ ⟨r.key, ⟨r.keyAlias, none, .rootKey⟩⟩ ∈ projections ∧
      ∀ p ∈ projections, p = ⟨r.key, ⟨r.keyAlias, none, .rootKey⟩⟩ ∨ p.binding.kind ≠ .rootKey := by
  obtain ⟨start, last, begins, visits, -, rfl, rfl⟩ := made.made
  have gains := visits_gain addressable begins.isBuilt visits
  have first := begins.key
  have inStep := (visits_built_grown addressable begins.isBuilt visits).1.scope
  refine ⟨last.scope.projections, ?_, inStep.columns, gains.kept (first ▸ List.mem_singleton_self _),
    fun p member => ?_⟩
  · have finished := (inStep.constrainRoot r.root r.others setting.pointInTime).finish_selected
    rw [Scope.constrainRoot_projections] at finished
    exact finished
  refine (gains.others p member).imp_left fun old => ?_
  rw [first] at old
  exact List.mem_singleton.mp old

theorem IsMade.key {statement : Sql.Statement} {columns : List ColumnBinding}
    (addressable : setting.IsAddressable roots) (made : IsMade setting roots asked r plan statement columns) :
    ⟨r.keyAlias, none, .rootKey⟩ ∈ columns ∧ ∀ b ∈ columns, b = ⟨r.keyAlias, none, .rootKey⟩ ∨ b.kind ≠ .rootKey := by
  obtain ⟨projections, -, rfl, key, others⟩ := made.selects addressable
  refine ⟨List.mem_map_of_mem (f := Projection.binding) key, fun b member => ?_⟩
  obtain ⟨p, inside, rfl⟩ := List.mem_map.mp member
  exact (others p inside).imp_left fun same => congrArg Projection.binding same

end Compile

namespace CompiledView

/-- The key of the root rows has a label that no other column has, whole or in front of others. -/
structure HasOwnLabel (v : CompiledView) : Prop where
  plain : '.' ∉ v.rootKeyAlias.toList
  columns : ∀ b, v.Selects b → b.kind ≠ .rootKey → (Row.propertiesOf b.label).head? ≠ some v.rootKeyAlias

/-- The key of the root rows stands at a place of its own. -/
structure HasOwnKey (v : CompiledView) : Prop extends v.HasOwnLabel where
  collections : ∀ s ∈ v.subSelects, (Row.propertiesOf s.path).head? ≠ some v.rootKeyAlias

def SelectsKey (v : CompiledView) (columns : List ColumnBinding) : Prop :=
  ⟨v.rootKeyAlias, none, .rootKey⟩ ∈ columns ∧ ∀ b ∈ columns, b = ⟨v.rootKeyAlias, none, .rootKey⟩ ∨ b.kind ≠ .rootKey

variable {v : CompiledView}

variable {registry : Registry} {settings : ViewSettings} {dialect : Sql.Dialect} {pointInTime : Option Timestamp}
  {page : Page} {t : FilterTree}

theorem compile_rootKeyAlias (compiled : compile registry settings dialect pointInTime page t = .ok v) :
    v.rootKeyAlias = settings.rootKeyAlias := by
  obtain ⟨last, -, compiled⟩ := bind_eq_ok.mp compiled
  obtain ⟨⟨found, plan⟩, -, compiled⟩ := bind_eq_ok.mp compiled
  cases compiled
  rfl

theorem compile_selectsKey (addressable : Setting.IsAddressable ⟨registry, pointInTime⟩ t.roots)
    (compiled : compile registry settings dialect pointInTime page t = .ok v) :
    v.SelectsKey v.columns ∧ ∀ s ∈ v.subSelects, v.SelectsKey s.columns := by
  have label := compile_rootKeyAlias compiled
  obtain ⟨-, -, ⟨_, _, _, -, primary⟩, each⟩ := compile_made addressable compiled
  rw [SelectsKey, label]
  refine ⟨primary.key addressable, fun s member => ?_⟩
  rw [SelectsKey, label]
  exact (each s member).1.key addressable

def resultKey (v : CompiledView) (result : Row) : String :=
  (result.read v.rootKeyAlias).toText

theorem HasOwnKey.get?_ofColumns (ownKey : v.HasOwnKey) {columns : List ColumnBinding} (selectsKey : v.SelectsKey columns)
    (selected : ∀ b ∈ columns, v.Selects b) (result : Row) :
    (Row.ofColumns columns result).get? v.rootKeyAlias = some (result.read v.rootKeyAlias) := by
  refine Row.get?_ofColumns result (Path.split_plain ownKey.plain) selectsKey.1 fun b member other => ?_
  exact ownKey.columns b (selected b member) ((selectsKey.2 b member).resolve_left other)

/-- Results of sub-selects have the key as it was selected. -/
theorem HasOwnKey.keyText_eq (ownKey : v.HasOwnKey) {s : SubSelect} (member : s ∈ v.subSelects)
    (selectsKey : v.SelectsKey s.columns) (result : Row) :
    v.keyText (Row.ofColumns s.columns result) = v.resultKey result := by
  rw [keyText, ownKey.get?_ofColumns selectsKey (fun b inside => .inr ⟨s, member, inside⟩)]
  rfl

/-- What a root row holds before it takes any results of sub-selects. -/
def rootFields (v : CompiledView) (result : Row) : Row :=
  Value.collapseFields (Row.ofColumns v.columns result)

theorem rootRows_eq (v : CompiledView) (results : List Row) : v.rootRows results = results.map fun result =>
    ⟨v.keyText (Row.startAll v.rootPlaces (v.rootFields result)), Row.startAll v.rootPlaces (v.rootFields result)⟩ := by
  refine List.map_congr_left fun result _ => ?_
  rw [Row.startAll, rootPlaces, List.foldl_map]
  rfl

/-- A root row has the key that its result has, unless that is a row. -/
theorem HasOwnKey.keyText_start (ownKey : v.HasOwnKey) (selectsKey : v.SelectsKey v.columns) (result : Row) :
    v.keyText (Row.startAll v.rootPlaces (v.rootFields result)) = (result.read v.rootKeyAlias).collapse.toText := by
  have apart : ∀ p ∈ v.rootPlaces, p.head? ≠ some v.rootKeyAlias := by
    intro p member
    obtain ⟨s, inside, rfl⟩ := List.mem_map.mp member
    exact ownKey.collections s (List.mem_filter.mp inside).1
  rw [keyText, Row.get?_startAll_of_ne apart, rootFields, Row.get?_collapseFields,
    ownKey.get?_ofColumns selectsKey fun b inside => .inl inside]
  rfl

end CompiledView

end ViewEngine
