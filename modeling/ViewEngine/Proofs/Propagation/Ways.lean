import ViewEngine.Proofs.Compilation.Plans
import ViewEngine.Proofs.Propagation.Addresses
import ViewEngine.Proofs.Propagation.Standing

namespace ViewEngine

open Compile JoinPlan

def Place.names (place : Place) : List String :=
  place.filterMap fun
    | .property name => some name
    | .position _ => none

theorem Place.names_concat (front : Place) (name : String) :
    names (front ++ [.property name]) = front.names ++ [name] := by
  rw [names, List.filterMap_append]
  rfl

namespace Path

variable {node : String} {place : Place} {steps : List PathStep} {parts names : List String} {part name : String}
  {step : PathStep}

theorem names_flatMap (steps : List PathStep) :
    Place.names (steps.flatMap PathStep.place) = steps.map (·.property) := by
  induction steps with
  | nil => rfl
  | cons step rest ih =>
      obtain ⟨property, position⟩ := step
      rw [List.flatMap_cons, Place.names, List.filterMap_append, ← Place.names, ← Place.names, ih]
      cases position <;> rfl

/-- The parts of a node with a place, and the properties that the place leads through. -/
theorem parts_of_nodePlace (placed : nodePlace? node = some place) :
    ∃ parts, node = ".".intercalate parts ∧ List.Forall₂ IsPart parts place.names := by
  unfold nodePlace? at placed
  split at placed
  next root =>
    cases placed
    exact ⟨[], String.isEmpty_iff.mp root, .nil⟩
  next =>
    obtain ⟨steps, parsed, rfl⟩ := Option.map_eq_some_iff.mp placed
    obtain ⟨same, each⟩ := parts_of_read (eq_ok_of_toOption parsed)
    exact ⟨_, same, names_flatMap steps ▸ each⟩

/-- A node whose parts are there for names has a place that leads through these. -/
theorem names_of_nodePlace (placed : nodePlace? (".".intercalate parts) = some place)
    (each : List.Forall₂ IsPart parts names) (isName : ∀ name ∈ names, IsName name) : place.names = names := by
  have filled := filled_of_parts each isName
  unfold nodePlace? at placed
  rw [isEmpty_intercalate filled] at placed
  split at placed
  next root =>
    cases placed
    rw [List.isEmpty_iff.mp root] at each
    rw [List.forall₂_nil_left_iff.mp each]
    rfl
  next nested =>
    obtain ⟨steps, parsed, rfl⟩ := Option.map_eq_some_iff.mp placed
    have nonempty : parts ≠ [] := fun empty => nested (List.isEmpty_iff.mpr empty)
    have whole : ∀ part ∈ parts, '.' ∉ part.toList := by
      clear parsed filled placed nested nonempty
      induction each with
      | nil => simp
      | @cons part name parts names isPart each ih =>
          intro other member
          rcases List.mem_cons.mp member with rfl | later
          · exact isPart.whole
          · exact ih (fun name later => isName name (List.mem_cons_of_mem _ later)) other later
    have cut : Text.split '.' (".".intercalate parts) = parts := Text.split_intercalate nonempty whole
    have reads := forall₂_of_mapM (cut ▸ read_eq_ok (eq_ok_of_toOption parsed))
    rw [names_flatMap]
    clear parsed filled placed nested nonempty whole cut
    induction each generalizing steps with
    | nil =>
        rw [List.forall₂_nil_left_iff.mp reads]
        rfl
    | @cons part name parts names isPart each ih =>
        obtain ⟨step, others, parsed, further, rfl⟩ := List.forall₂_cons_left_iff.mp reads
        rw [List.map_cons, PathStep.property_eq_of_isPart isPart (isName name (List.mem_cons_self ..)) parsed,
          ih (fun name later => isName name (List.mem_cons_of_mem _ later)) others further]

end Path

/-- Names and entities with which paths tell the nodes of a view apart, and what they have. -/
structure Compile.Setting.IsNamed (setting : Setting) (roots : List Entity) : Prop where
  names : ∀ e ∈ roots ++ setting.registry.all, ∀ a ∈ e.attributes, a.isAssociation = true →
    IsStep a.property ∧ ']' ∉ a.property.toList
  built : ∀ e ∈ roots ++ setting.registry.all, e.IsBuilt
  single : ∀ e ∈ roots, ∀ other ∈ roots, ∀ a ∈ e.attributes, ∀ b ∈ other.attributes,
    a.property = b.property → a.isAssociation = true → a = b

section Ways

variable {setting : Setting} {roots es : List Entity} {plan : JoinPlan} {way : List JoinEntry} {table : Nat}
  {path name : String} {e : Entity} {a b : Attribute}

theorem Compile.Setting.IsNamed.addressable (named : setting.IsNamed roots) : setting.IsAddressable roots where
  steps e known a member isAssociation := (named.names e known a member isAssociation).1
  agreed := by
    intro e member other there property a b found again isAssociation
    have same : a.property = b.property := by
      have first : a.property = property := by simpa using List.find?_some found
      have second : b.property = property := by simpa using List.find?_some again
      exact first.trans second.symm
    rw [named.single e member other there a (List.mem_of_find?_eq_some found) b (List.mem_of_find?_eq_some again) same
      isAssociation]

/-- An association that starts or ends at a node with the entities is joined by a column of one of them. -/
inductive JoinPlan.JoinedBy (plan : JoinPlan) : List Entity → Entity → Attribute → Prop
  | source {es : List Entity} {j : JoinEntry} {pair : JoinColumn} {a : Attribute} (member : j ∈ plan.entries)
      (starts : j.sourceEntity ∈ es) (joins : pair ∈ j.subject.joinColumns)
      (found : j.sourceEntity.column? pair.source = some a) : JoinedBy plan es j.sourceEntity a
  | target {j : JoinEntry} {pair : JoinColumn} {a : Attribute} (member : j ∈ plan.entries)
      (joins : pair ∈ j.subject.joinColumns) (found : j.entity.column? pair.target = some a) :
      JoinedBy plan [j.entity] j.entity a

namespace JoinPlan.JoinedBy

theorem owner (joined : plan.JoinedBy es e a) : e ∈ es := by
  cases joined with
  | source member starts joins found => exact starts
  | target member joins found => exact List.mem_singleton_self _

theorem mem (joined : plan.JoinedBy es e a) : a ∈ e.attributes := by
  cases joined with
  | source member starts joins found => exact List.mem_of_find?_eq_some found
  | target member joins found => exact List.mem_of_find?_eq_some found

theorem column (joined : plan.JoinedBy es e a) : a.column.isSome = true := by
  have holds {e : Entity} {name : String} (found : e.column? name = some a) : a.column = some name := by
    simpa using List.find?_some found
  cases joined with
  | source member starts joins found => exact Option.isSome_of_eq_some (holds found)
  | target member joins found => exact Option.isSome_of_eq_some (holds found)

end JoinPlan.JoinedBy

namespace JoinPlan

variable (named : setting.IsNamed roots) (built : plan.IsBuilt setting roots)
include named built

theorem Leads.names (leads : plan.Leads roots way es table path) :
    ∀ name ∈ Path.properties path, IsStep name ∧ ']' ∉ name.toList := by
  induction leads with
  | root => simp [Path.properties_empty]
  | @join way es table path j leads member source declared isPath ih =>
      obtain ⟨inside, -⟩ := declarer?_eq_some declared
      have isName := named.names _ (leads.known built _ inside) _ (declarer?_mem declared)
        (Registry.isAssociation_of_targetOf (built.entries j member).found)
      rw [isPath, Path.properties_child path isName.1]
      intro name among
      rcases List.mem_append.mp among with above | last
      · exact ih name above
      · rw [List.mem_singleton.mp last]
        exact isName

/-- The entities of a node have one attribute for the property of an association. -/
theorem Leads.single (leads : plan.Leads roots way es table path) {other : Entity} (member : e ∈ es)
    (there : other ∈ es) (inside : a ∈ e.attributes) (insideOther : b ∈ other.attributes)
    (same : a.property = b.property) (isAssociation : a.isAssociation = true) : a = b := by
  have known := leads.known built
  rcases leads.last with ⟨-, rfl⟩ | ⟨k, -, -, rfl⟩
  · exact named.single e member other there a inside b insideOther same isAssociation
  · cases List.mem_singleton.mp member
    cases List.mem_singleton.mp there
    exact (named.built _ (known _ member)).eq_of_property inside insideOther same

/-- On the way to a node each property is an association of the node that it starts from. -/
theorem Leads.inner (leads : plan.Leads roots way es table path) {front more : List String}
    (through : Path.properties path = front ++ name :: more) :
    ∃ inner entities number above j, plan.Leads roots inner entities number above ∧
      Path.properties above = front ∧ j ∈ plan.entries ∧
      declarer? entities name = some (j.sourceEntity, j.subject) := by
  induction leads generalizing more with
  | root => simp [Path.properties_empty] at through
  | @join way es table path j leads member source declared isPath ih =>
      obtain ⟨inside, -⟩ := declarer?_eq_some declared
      have isName := named.names _ (leads.known built _ inside) _ (declarer?_mem declared)
        (Registry.isAssociation_of_targetOf (built.entries j member).found)
      rw [isPath, Path.properties_child path isName.1] at through
      rcases List.eq_nil_or_concat' more with rfl | ⟨others, last, rfl⟩
      · obtain ⟨above, property⟩ := List.append_inj' through rfl
        cases List.singleton_inj.mp property
        exact ⟨way, es, table, path, j, leads, above, member, declared⟩
      · rw [← List.cons_append, ← List.append_assoc] at through
        exact ih (List.append_inj' through rfl).1

theorem Leads.off_way {inner : List JoinEntry} {entities : List Entity} {number : Nat} {above : String}
    (leads : plan.Leads roots way es table path) (here : plan.Leads roots inner entities number above)
    (member : e ∈ entities) (inside : a ∈ e.attributes) (column : a.column.isSome = true) (more : List String) :
    Path.properties path ≠ Path.properties above ++ a.property :: more := by
  intro through
  obtain ⟨way, others, table, start, j, leads, same, planned, declared⟩ := leads.inner named built through
  obtain rfl := Path.eq_of_properties same
  obtain ⟨-, rfl, -⟩ := leads.eq_of_path named.addressable built here
  have property : j.subject.property = a.property := declarer?_property declared
  obtain ⟨source, -⟩ := declarer?_eq_some declared
  have isAssociation := Registry.isAssociation_of_targetOf (built.entries j planned).found
  have equal := here.single named built source member (declarer?_mem declared) inside property isAssociation
  have kind := (named.built e (here.known built e member)).kinds a inside
  rw [equal] at isAssociation
  rw [isAssociation, column] at kind
  contradiction

omit named in
/-- The entry at the path of a node below the root is the one that joins it. -/
theorem Leads.atPath? (leads : plan.Leads roots way es table path) (below : path ≠ "") :
    ∃ j, plan.atPath? path = some j ∧ es = [j.entity] ∧ j.table = table := by
  cases leads with
  | root => contradiction
  | @join way es table path j leads member source declared isPath =>
      cases found : plan.atPath? j.path with
      | none => simpa using List.find?_eq_none.mp found j member
      | some k =>
          have same : k.path = j.path := by simpa using List.find?_some found
          rw [built.eq_of_path (List.mem_of_find?_eq_some found) member same]
          exact ⟨j, rfl, rfl, rfl⟩

omit named in
theorem leads_of_member {j : JoinEntry} (member : j ∈ plan.entries) :
    ∃ way, plan.Leads roots way [j.entity] j.table j.path := by
  obtain ⟨way, es, above, reached, declares, isPath⟩ := built.reached j member
  exact ⟨_, reached.join member rfl declares isPath⟩

/-- Keys are taken over into columns of nodes of the view, by which associations are joined. -/
theorem exists_receiver {r : ViewRow} {place : Place} (receives : place ∈ r.receivers plan)
    (isName : ∀ name ∈ place.names.dropLast, IsName name) : ∃ inner es table above e a,
      plan.Leads roots inner es table above ∧ plan.JoinedBy es e a ∧
        place.names = Path.properties above ++ [a.property] := by
  obtain ⟨node, -, receives⟩ := List.mem_flatMap.mp receives
  obtain ⟨entry, found, receives⟩ := List.mem_flatMap.mp receives
  obtain ⟨pair, joins, receives⟩ := List.mem_filterMap.mp receives
  obtain ⟨⟨receiver, property⟩, writes, placed⟩ := Option.bind_eq_some_iff.mp receives
  have found := Option.mem_toList.mp found
  have member := List.mem_of_find?_eq_some found
  have isPath : entry.path = Path.withoutPositions node := by simpa using List.find?_some found
  dsimp only at placed
  rw [Path.place?_eq] at placed
  obtain ⟨front, stands, rfl⟩ := Option.map_eq_some_iff.mp placed
  obtain ⟨parts, joined, each⟩ := Path.parts_of_nodePlace stands
  rw [Place.names_concat] at isName ⊢
  rw [List.dropLast_concat] at isName
  have isStep : ∀ name ∈ Place.names front, IsStep name := fun name inside => (isName name inside).1
  unfold ViewRow.receiver? at writes
  split at writes
  next upper lower foundUpper foundLower =>
    split at writes
    · contradiction
    · split at writes
      · cases writes
        obtain ⟨way, leads⟩ := leads_of_member built member
        refine ⟨way, _, _, _, _, lower, leads, .target member joins foundLower, ?_⟩
        rw [isPath, joined, Path.withoutPositions_intercalate each isName, Path.properties_intercalate isStep]
      · cases writes
        obtain ⟨way, es, above, leads, declares, isChild⟩ := built.reached entry member
        obtain ⟨source, -⟩ := declarer?_eq_some declares
        refine ⟨way, es, _, above, entry.sourceEntity, upper, leads, .source member source joins foundUpper, ?_⟩
        have isName' := named.names _ (leads.known built _ source) _ (declarer?_mem declares)
          (Registry.isAssociation_of_targetOf (built.entries entry member).found)
        have start : above = ".".intercalate (Place.names front) := by
          have cut := Path.node_withoutPositions each isName joined
          rwa [← isPath, isChild, Path.node, Path.splitProperty_child _ isName'.1.2] at cut
        rw [start, Path.properties_intercalate isStep]
  next => contradiction

/-- A column is on the way to a property of a node only if it is that property. -/
theorem Leads.eq_of_start (leads : plan.Leads roots way es table path) {inner : List JoinEntry}
    {entities : List Entity} {number : Nat} {above : String} (here : plan.Leads roots inner entities number above)
    (member : e ∈ entities) (inside : a ∈ e.attributes) (column : a.column.isSome = true) {place front : Place}
    (isColumn : place.names = Path.properties above ++ [a.property]) (isNode : front.names = Path.properties path)
    (starts : place <+: front ++ [.property name]) :
    place = front ++ [.property name] ∧ above = path ∧ a.property = name := by
  rcases List.prefix_concat_iff.mp starts with same | earlier
  · have names := congrArg Place.names same
    rw [isColumn, Place.names_concat, isNode] at names
    obtain ⟨start, last⟩ := List.append_inj' names rfl
    exact ⟨same, Path.eq_of_properties start, List.singleton_inj.mp last⟩
  · obtain ⟨more, through⟩ := earlier.filterMap (fun
      | .property name => some name
      | .position _ => none)
    change place.names ++ more = front.names at through
    rw [isColumn, isNode, List.append_assoc] at through
    exact absurd through.symm (leads.off_way named built here member inside column more)

theorem Leads.receivers_aside (leads : plan.Leads roots way es table path)
    (isName : ∀ name ∈ Path.properties path, IsName name) {place : Place}
    (names : place.names = Path.properties path) (r : ViewRow) :
    ∀ changed ∈ r.receivers plan, ¬ changed <+: place := by
  intro changed receives start
  have through : changed.names <+: Path.properties path := names ▸ start.filterMap _
  have isName : ∀ name ∈ changed.names.dropLast, IsName name := fun name inside =>
    isName name (through.subset (List.mem_of_mem_dropLast inside))
  obtain ⟨inner, entities, number, above, e, a, here, joined, same⟩ :=
    exists_receiver named built receives isName
  obtain ⟨more, through⟩ := through
  rw [same, List.append_assoc] at through
  exact leads.off_way named built here joined.owner joined.mem joined.column more through.symm

end JoinPlan

end Ways

end ViewEngine
