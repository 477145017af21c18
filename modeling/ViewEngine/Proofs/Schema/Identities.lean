import ViewEngine.Proofs.Schema.Registered

/-!
What the identity of an attribute tells. It names the entity that declares the attribute, and where no entity is
declared twice there is one attribute to it. Where an entity takes the place of an older one of its name, subtypes of
the older one still have the attributes of that.
-/

namespace ViewEngine

namespace Attribute

def target? (a : Attribute) : Option String :=
  a.association.map (·.target)

def declaredBy (entity : String) (a : Attribute) : Attribute :=
  { a with id := ⟨entity, a.property⟩ }

theorem isAssociation_eq_of_target {a b : Attribute} (same : a.target? = b.target?) :
    a.isAssociation = b.isAssociation := by
  simpa [target?, isAssociation] using congrArg Option.isSome same

end Attribute

def Registry.Has (registry : Registry) (a : Attribute) : Prop :=
  ∃ e ∈ registry.all, a ∈ e.attributes

/-- Attributes of one identity lead to one entity, or are columns all of them. -/
def Registry.IsUnambiguous (registry : Registry) : Prop :=
  ∀ a b, registry.Has a → registry.Has b → a.id = b.id → a.target? = b.target?

def EntityDefinition.Declares (d : EntityDefinition) (a : Attribute) : Prop :=
  ∃ declared, d.attributes.mapM (·.build d.name) = .ok declared ∧ (declared.map (·.property)).Nodup ∧
    ∃ b ∈ declared, a = b.declaredBy d.name

def Registry.AreDeclared (registry : Registry) (definitions : List EntityDefinition) : Prop :=
  ∀ a, registry.Has a → ∃ d ∈ definitions, d.Declares a

variable {registry : Registry} {definitions : List EntityDefinition} {d : EntityDefinition} {e target : Entity}
  {a b : Attribute}

namespace EntityDraft

variable {draft : EntityDraft} {entity : String} {attributes declared result : List Attribute}

theorem declare_eq (succeeded : declare entity attributes declared = .ok result) :
    result = attributes ++ declared.map (·.declaredBy entity) := by
  induction declared generalizing attributes with
  | nil =>
      cases succeeded
      simp
  | cons a rest ih =>
      rw [declare] at succeeded
      split at succeeded
      · contradiction
      · rw [ih succeeded, List.append_assoc]
        rfl

theorem build_attributes (succeeded : draft.build = .ok e) :
    e.attributes = draft.inherited ++ draft.attributes.map (·.declaredBy draft.name) :=
  declare_eq (build_marks succeeded).1

end EntityDraft

namespace EntityDefinition

theorem Declares.entity (declares : d.Declares a) : a.id.entity = d.name := by
  obtain ⟨_, _, _, _, _, rfl⟩ := declares
  rfl

theorem Declares.eq (first : d.Declares a) (second : d.Declares b) (same : a.id = b.id) : a = b := by
  obtain ⟨declared, defined, distinct, plain, member, rfl⟩ := first
  obtain ⟨others, again, -, other, inside, rfl⟩ := second
  cases defined.symm.trans again
  have property : plain.property = other.property := congrArg (·.property) same
  rw [List.inj_on_of_nodup_map distinct member inside property]

/-- The attributes of an entity that is built are those of its parent, and the declared ones. -/
theorem build_attributes (built : registry.AreBuilt) (succeeded : d.build registry = .ok e) :
    ∀ a ∈ e.attributes, registry.Has a ∨ d.Declares a := by
  have properties := (Registry.build_isBuilt built succeeded).properties
  have declares {attributes inherited : List Attribute} (defined : d.attributes.mapM (·.build d.name) = .ok attributes)
      (whole : e.attributes = inherited ++ attributes.map (·.declaredBy d.name))
      (there : ∀ a ∈ inherited, registry.Has a) : ∀ a ∈ e.attributes, registry.Has a ∨ d.Declares a := by
    rw [whole, List.map_append, List.map_map] at properties
    intro a member
    rw [whole] at member
    rcases List.mem_append.mp member with old | new
    · exact .inl (there a old)
    · obtain ⟨b, inside, rfl⟩ := List.mem_map.mp new
      exact .inr ⟨attributes, defined, (List.nodup_append.mp properties).2.1, b, inside, rfl⟩
  unfold EntityDefinition.build at succeeded
  cases parent : d.parent with
  | none =>
      rw [parent] at succeeded
      obtain ⟨draft, drafted, succeeded⟩ := bind_eq_ok.mp succeeded
      obtain ⟨attributes, defined, succeeded⟩ := bind_eq_ok.mp succeeded
      cases drafted
      exact declares defined (EntityDraft.build_attributes succeeded) fun a member => absurd member List.not_mem_nil
  | some name =>
      rw [parent] at succeeded
      obtain ⟨draft, drafted, succeeded⟩ := bind_eq_ok.mp succeeded
      obtain ⟨attributes, defined, succeeded⟩ := bind_eq_ok.mp succeeded
      obtain ⟨entity, found, rfl⟩ := map_eq_ok.mp drafted
      exact declares defined (EntityDraft.build_attributes succeeded) fun a member =>
        ⟨entity, Registry.mem_all_of_entity found, member⟩

end EntityDefinition

namespace Registry

theorem register_areDeclared (built : registry.AreBuilt) (declared : registry.AreDeclared definitions)
    (member : d ∈ definitions) (succeeded : d.build registry = .ok e) :
    (registry.register e).AreDeclared definitions := by
  rintro a ⟨other, known, inside⟩
  rcases Keyed.mem_values_insert known with rfl | old
  · rcases EntityDefinition.build_attributes built succeeded a inside with has | declares
    · exact declared a has
    · exact ⟨d, member, declares⟩
  · exact declared a ⟨other, old, inside⟩

theorem areDeclared_of_definitions (accepted : ofDefinitions definitions = .ok registry) :
    registry.AreDeclared definitions := by
  obtain ⟨result, added, accepted⟩ := bind_eq_ok.mp accepted
  obtain ⟨⟨⟩, -, accepted⟩ := bind_eq_ok.mp accepted
  cases accepted
  have kept : ∀ d ∈ definitions, ∀ registry e, registry.AreBuilt ∧ registry.AreDeclared definitions →
      d.build registry = .ok e →
      (registry.register e).AreBuilt ∧ (registry.register e).AreDeclared definitions :=
    fun d member registry e before succeeded =>
      ⟨register_areBuilt before.1 succeeded, register_areDeclared before.1 before.2 member succeeded⟩
  have nothing {e : Entity} : e ∉ ({} : Registry).all := List.not_mem_nil
  refine (addAll_keeps kept ⟨fun e member => absurd member nothing, ?_⟩ added).2
  rintro a ⟨e, member, -⟩
  exact absurd member nothing

/-- Where no two definitions have a name in common, no two attributes have an identity in common. -/
theorem eq_of_id (accepted : ofDefinitions definitions = .ok registry) (distinct : (definitions.map (·.name)).Nodup)
    (first : registry.Has a) (second : registry.Has b) (same : a.id = b.id) : a = b := by
  obtain ⟨d, member, declares⟩ := areDeclared_of_definitions accepted a first
  obtain ⟨other, inside, again⟩ := areDeclared_of_definitions accepted b second
  have name : d.name = other.name := by rw [← declares.entity, same, again.entity]
  cases List.inj_on_of_nodup_map distinct member inside name
  exact declares.eq again same

theorem isUnambiguous_of_distinct (accepted : ofDefinitions definitions = .ok registry)
    (distinct : (definitions.map (·.name)).Nodup) : registry.IsUnambiguous := by
  intro a b first second same
  rw [eq_of_id accepted distinct first second same]

/-- An association that is registered leads to an entity that is registered. -/
theorem IsRegistered.exists_targetOf (registered : registry.IsRegistered) (has : registry.Has a)
    (isAssociation : a.isAssociation = true) : ∃ target ∈ registry.all, registry.targetOf a = .ok target := by
  obtain ⟨e, known, member⟩ := has
  obtain ⟨target, isKnown, found, -⟩ := registered.targetOf_association known member isAssociation
  exact ⟨target, isKnown, found⟩

theorem targetOf_congr (same : a.target? = b.target?) (found : registry.targetOf a = .ok target) :
    registry.targetOf b = .ok target := by
  unfold targetOf Attribute.target? at *
  split at found
  next association declared =>
    rw [declared] at same
    obtain ⟨other, isOther, names⟩ := Option.map_eq_some_iff.mp same.symm
    rw [isOther]
    change registry.entity other.target = .ok target
    rw [names]
    exact found
  next => contradiction

end Registry

end ViewEngine
