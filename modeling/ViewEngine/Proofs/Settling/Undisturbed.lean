import ViewEngine.Proofs.Settling.Reopened

namespace ViewEngine

open Compile JoinPlan Planning

/-- The versions of no entity start with a column by which an association is joined. What is a join column of one root
is none of the others that starts a version. -/
structure Compile.Setting.VersionsUnjoined (setting : Setting) (roots : List Entity) : Prop where
  source : ∀ e ∈ roots ++ setting.registry.all, ∀ version, e.version = some version →
    ∀ owner, (owner = e ∨ e ∈ roots ∧ owner ∈ roots) → ∀ a ∈ owner.attributes, ∀ pair ∈ a.joinColumns, ∀ b,
      owner.column? pair.source = some b → b.property ≠ version.opening.property
  target : ∀ owner ∈ roots ++ setting.registry.all, ∀ a ∈ owner.attributes, ∀ e, setting.registry.targetOf a = .ok e →
    ∀ version, e.version = some version → ∀ pair ∈ a.joinColumns, ∀ b,
      e.column? pair.target = some b → b.property ≠ version.opening.property

namespace Path

variable {node : String} {front : Place}

theorem isStep_of_nodePlace (placed : nodePlace? node = some front) :
    ∀ name ∈ front.names, IsStep name ∧ '[' ∉ name.toList := by
  unfold nodePlace? at placed
  split at placed
  next root =>
    cases placed
    simp [Place.names]
  next =>
    obtain ⟨steps, parsed, rfl⟩ := Option.map_eq_some_iff.mp placed
    have parsed := eq_ok_of_toOption parsed
    obtain ⟨-, each⟩ := parts_of_read parsed
    rw [names_flatMap]
    intro name inside
    obtain ⟨part, -, isPart⟩ := exists_isPart each inside
    exact ⟨⟨filled_of_read parsed name inside, isPart.whole_property⟩, unopened_of_read parsed name inside⟩

theorem properties_of_nodePlace (placed : nodePlace? node = some front) (isName : ∀ name ∈ front.names, IsName name) :
    properties (withoutPositions node) = front.names := by
  obtain ⟨parts, joined, each⟩ := parts_of_nodePlace placed
  rw [joined, withoutPositions_intercalate each isName, properties_intercalate fun name inside => (isName name inside).1]

end Path

theorem ViewRow.isNew_of_stands {r : ViewRow} {rest : Place} {value : Value}
    (stands : (Value.row r.data).atPlace? (.property newRowMark :: rest) = some value) : r.isNew = true := by
  obtain ⟨held, found, -⟩ := Option.bind_eq_some_iff.mp stands
  exact Option.isSome_of_eq_some found

theorem Place.prefix_of_concat {place front : Place} {s t : PlaceStep} (starts : place ++ [s] <+: front ++ [t]) :
    place <+: front := by
  rcases List.prefix_concat_iff.mp starts with same | earlier
  · exact (List.append_inj' same rfl).1 ▸ List.prefix_refl _
  · exact (List.prefix_append ..).trans earlier

theorem Place.names_subset {place front : Place} (starts : place <+: front) : place.names ⊆ front.names :=
  (starts.filterMap _).subset

section Ways

variable {setting : Setting} {roots es : List Entity} {plan : JoinPlan} {v : CompiledView} {way : List JoinEntry}
  {table : Nat} {path node : String} {e : Entity} {data : Row} {version : VersionColumns} {front : Place}

theorem leads_of_entityAt? (built : v.joinPlan.IsBuilt setting roots) (sameRoots : v.roots = roots)
    (found : v.entityAt? data path = some e) :
    ∃ way es table, v.joinPlan.Leads roots way es table path ∧ e ∈ es := by
  unfold CompiledView.entityAt? at found
  split at found
  next root =>
    cases found
    rw [String.isEmpty_iff.mp root]
    exact ⟨[], roots, 0, .root, sameRoots ▸ rootOf_mem v data⟩
  next nested =>
    obtain ⟨j, there, rfl⟩ := Option.map_eq_some_iff.mp found
    have isPath : j.path = path := by simpa using List.find?_some there
    obtain ⟨way, leads⟩ := leads_of_member built (List.mem_of_find?_eq_some there)
    exact ⟨way, _, _, isPath ▸ leads, List.mem_singleton_self _⟩

variable (named : setting.IsNamed roots) (built : plan.IsBuilt setting roots)
include named built

namespace JoinPlan

/-- Properties that lead to a place are names if they lead to a node of the view. -/
theorem Leads.isName_of_nodePlace (leads : plan.Leads roots way es table path)
    (placed : Path.nodePlace? node = some front) (onWay : front.names ⊆ Path.properties path) :
    ∀ name ∈ front.names, IsName name := by
  intro name inside
  obtain ⟨isStep, unopened⟩ := Path.isStep_of_nodePlace placed name inside
  exact ⟨isStep, unopened, (leads.names named built name (onWay inside)).2⟩

omit named in
theorem JoinedBy.ne_opening {owner : Entity} {a : Attribute} (joined : plan.JoinedBy es owner a)
    (leads : plan.Leads roots way es table path) (unjoined : setting.VersionsUnjoined roots) (member : e ∈ es)
    (dated : e.version = some version) : a.property ≠ version.opening.property := by
  have known := leads.known built
  cases joined with
  | @source _ j pair _ isEntry starts joins found =>
      have alike : j.sourceEntity = e ∨ e ∈ roots ∧ j.sourceEntity ∈ roots := by
        rcases leads.last with ⟨-, rfl⟩ | ⟨k, -, -, rfl⟩
        · exact .inr ⟨member, starts⟩
        · exact .inl ((List.mem_singleton.mp starts).trans (List.mem_singleton.mp member).symm)
      obtain ⟨_, _, _, -, declares, -⟩ := built.reached j isEntry
      exact unjoined.source e (known e member) version dated _ alike _ (declarer?_mem declares) pair joins a found
  | @target j pair _ isEntry joins found =>
      cases List.mem_singleton.mp member
      obtain ⟨_, _, _, reaches, declares, -⟩ := built.reached j isEntry
      obtain ⟨source, -⟩ := declarer?_eq_some declares
      exact unjoined.target _ (reaches.known built _ source) _ (declarer?_mem declares) _ (built.entries j isEntry).found
        version dated pair joins a found

theorem Leads.receivers_aside_opening (leads : plan.Leads roots way es table path)
    (unjoined : setting.VersionsUnjoined roots) (member : e ∈ es) (dated : e.version = some version)
    (isNode : front.names = Path.properties path) (isName : ∀ name ∈ front.names, IsName name) (r : ViewRow) :
    ∀ place ∈ r.receivers plan, ¬ place <+: front ++ [.property version.opening.property] := by
  intro place receives starts
  have onWay : ∀ name ∈ place.names.dropLast, IsName name := by
    intro name inside
    rcases List.prefix_concat_iff.mp starts with same | earlier
    · rw [same, Place.names_concat, List.dropLast_concat] at inside
      exact isName name inside
    · exact isName name (Place.names_subset earlier (List.mem_of_mem_dropLast inside))
  obtain ⟨inner, entities, number, above, owner, a, here, joined, names⟩ :=
    exists_receiver named built receives onWay
  obtain ⟨-, rfl, same⟩ := leads.eq_of_start named built here joined.owner joined.mem joined.column names isNode starts
  obtain ⟨-, rfl, -⟩ := here.eq_of_path named.addressable built leads
  exact joined.ne_opening built leads unjoined member dated same

end JoinPlan

end Ways

namespace View

variable {setting : Setting} {roots es : List Entity} {v : View} {way : List JoinEntry}
  {table row : Nat} {path node : String} {e : Entity} {version : VersionColumns} {front : Place}
  {r : ViewRow} {slot : Slot} {strict : Bool} {context : Context}

/-- A node for which a version is inserted is one of the view, and not one of a row that was there as new. -/
theorem Opens.exists_node (opens : v.Opens strict context row node version) : ∃ r e front,
    v.rows[row]? = some r ∧ v.compiled.entityAt? r.data (Path.withoutPositions node) = some e ∧
      e.version = some version ∧ Path.nodePlace? node = some front ∧ HasNode v.rows row front ∧
      front.head? ≠ some (.property newRowMark) := by
  obtain ⟨w, origin, e, data, plans, isNode, -, source, dated⟩ := opens
  cases origin with
  | node number above =>
      cases isNode
      obtain ⟨r, there, standing, entity⟩ := source
      obtain ⟨front, placed, stands⟩ := Row.exists_place_of_nodeAt standing
      refine ⟨r, e, front, there, entity, dated, placed, ⟨r, data, there, stands⟩, ?_⟩
      obtain ⟨_, -, again, stored, -⟩ := plans
      cases there.symm.trans again
      intro marked
      obtain ⟨rest, rfl⟩ := List.head?_eq_some_iff.mp marked
      rw [ViewRow.isNew_of_stands stands] at stored
      contradiction
  | added number =>
      cases isNode
      obtain ⟨r, there, rfl, rfl⟩ := source
      exact ⟨r, _, [], there, rfl, dated, rfl, ⟨r, r.data, there, rfl⟩, by simp⟩
  | removed number => cases isNode

section Aside

variable (named : setting.IsNamed roots) (built : v.compiled.joinPlan.IsBuilt setting roots)
  (sameRoots : v.compiled.roots = roots) (leads : v.compiled.joinPlan.Leads roots way es table path)
  (isNode : front.names = Path.properties path)
include named built sameRoots leads isNode

/-- Versions start at the same place as that of a node, or aside of it. -/
theorem Opens.aside {name : String} {next : Reopening}
    (opens : v.Opens strict context next.row next.node version) (opening : version.opening.property = next.property) :
    Aside row front name next := by
  intro _ changed placed starts
  obtain ⟨r, e, place, standing, entity, dated, isPlace, -⟩ := opens.exists_node
  obtain ⟨inner, entities, number, here, member⟩ := leads_of_entityAt? built sameRoots entity
  rw [Path.place?_eq, isPlace] at placed
  cases placed
  have onWay : place.names ⊆ Path.properties path := isNode ▸ Place.names_subset (Place.prefix_of_concat starts)
  have through := Path.properties_of_nodePlace isPlace (leads.isName_of_nodePlace named built isPlace onWay)
  have isBuilt := named.built e (here.known built e member)
  have scalar := isBuilt.opening version dated
  have column := Option.isSome_of_eq_some (Attribute.column_of_scalar scalar)
  refine (leads.eq_of_start named built here member (Entity.mem_attributes_of_scalar scalar) column ?_ isNode starts).1
  rw [Place.names_concat, through, opening]

end Aside

/-- A slot is that of a column that can be written, up to the positions on the way to it. -/
def CanSet (v : View) (slot : Slot) : Prop :=
  ∃ r front above e a, v.rows[slot.row]? = some r ∧ Path.nodePlace? slot.node = some front ∧
    front.names = Path.properties above ∧ v.compiled.entityAt? r.data above = some e ∧
    e.property? slot.property = some a ∧ e.isWritable a = true

/-- A column that can be written is not on the way to the start of a version. -/
theorem CanSet.not_onWay (canSet : v.CanSet slot) (named : setting.IsNamed roots)
    (built : v.compiled.joinPlan.IsBuilt setting roots) (sameRoots : v.compiled.roots = roots)
    (placed : Path.place? slot.node slot.property = some slot.place) (standing : v.rows[slot.row]? = some r)
    (entity : v.compiled.entityAt? r.data path = some e) (dated : e.version = some version)
    (isNode : front.names = Path.properties path) :
    ¬ slot.place <+: front ++ [.property version.opening.property] := by
  intro starts
  obtain ⟨r', place, above, other, a, standing', isPlace, names, entity', found, writable⟩ := canSet
  cases standing.symm.trans standing'
  obtain ⟨way, es, table, leads, member⟩ := leads_of_entityAt? built sameRoots entity
  obtain ⟨inner, entities, number, here, among⟩ := leads_of_entityAt? built sameRoots entity'
  have inside : a ∈ other.attributes := List.mem_of_find?_eq_some found
  have property : a.property = slot.property := by simpa using List.find?_some found
  have isColumn : slot.place.names = Path.properties above ++ [a.property] := by
    rw [Path.place?_eq, isPlace] at placed
    rw [← Option.some.inj placed, Place.names_concat, names, property]
  have column : a.column.isSome = true := by
    simp only [Entity.isWritable, Bool.and_eq_true] at writable
    exact writable.1.1.1
  obtain ⟨-, rfl, same⟩ := leads.eq_of_start named built here among inside column isColumn isNode starts
  cases entity.symm.trans entity'
  have isBuilt := named.built e (leads.known built e member)
  have isOpening := isBuilt.eq_of_property inside (Entity.mem_attributes_of_scalar (isBuilt.opening version dated)) same
  simp [Entity.isWritable, Entity.isVersionAttribute, dated, isOpening] at writable

end View

end ViewEngine
