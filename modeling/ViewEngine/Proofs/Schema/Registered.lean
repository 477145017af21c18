import ViewEngine.Proofs.Except
import ViewEngine.Proofs.Keyed
import ViewEngine.Proofs.Schema.Entities
import ViewEngine.Schema.Reading

namespace ViewEngine

/-- An entity as it is built from its definition. -/
structure Entity.IsBuilt (e : Entity) : Prop where
  properties : (e.attributes.map (·.property)).Nodup
  kinds : ∀ a ∈ e.attributes, a.column.isSome = !a.isAssociation
  opening : ∀ version, e.version = some version → version.opening ∈ e.scalars
  discriminator : ∀ d, e.discriminator = some d → d.subject ∈ e.scalars

namespace Entity.IsBuilt

variable {e : Entity} {a b : Attribute}

theorem isStored (built : e.IsBuilt) (member : a ∈ e.attributes) (isColumn : a.isAssociation = false) :
    a.column.isSome = true := by
  rw [built.kinds a member, isColumn, Bool.not_false]

theorem eq_of_property (built : e.IsBuilt) (first : a ∈ e.attributes)
    (second : b ∈ e.attributes) (same : a.property = b.property) : a = b :=
  List.inj_on_of_nodup_map built.properties first second same

theorem property? (built : e.IsBuilt) (member : a ∈ e.attributes) : e.property? a.property = some a :=
  (property?_eq_some_iff built.properties).mpr ⟨member, rfl⟩

end Entity.IsBuilt

namespace EntityDraft

def AreDeclared (attributes : List Attribute) : Prop :=
  (attributes.map (·.property)).Nodup ∧ ∀ a ∈ attributes, a.column.isSome = !a.isAssociation

theorem declare_areDeclared {entity : String} {attributes declared result : List Attribute}
    (before : AreDeclared attributes) (kinds : ∀ a ∈ declared, a.column.isSome = !a.isAssociation)
    (succeeded : declare entity attributes declared = .ok result) : AreDeclared result := by
  induction declared generalizing attributes with
  | nil =>
      cases succeeded
      exact before
  | cons a rest ih =>
      rw [declare] at succeeded
      split at succeeded
      · contradiction
      next new =>
        refine ih ⟨?_, ?_⟩ (fun b member => kinds b (List.mem_cons_of_mem _ member)) succeeded
        · rw [List.map_append, List.nodup_append]
          refine ⟨before.1, List.nodup_singleton _, ?_⟩
          intro property member other isNew same
          cases List.mem_singleton.mp isNew
          obtain ⟨b, inside, rfl⟩ := List.mem_map.mp member
          exact new (List.any_eq_true.mpr ⟨b, inside, beq_iff_eq.mpr same⟩)
        · intro b member
          rcases List.mem_append.mp member with old | isNew
          · exact before.2 b old
          · rw [List.mem_singleton.mp isNew]
            exact kinds a (List.mem_cons_self ..)

theorem columnAttribute_mem {entity property : String} {attributes : List Attribute} {a : Attribute}
    (found : columnAttribute entity attributes property = .ok a) :
    a ∈ attributes ∧ a.column.isSome = true := by
  unfold columnAttribute at found
  split at found
  next there =>
    cases found
    have holds := List.find?_some there
    simp only [Bool.and_eq_true] at holds
    exact ⟨List.mem_of_find?_eq_some there, holds.2⟩
  next => contradiction

/-- What an entity tells its rows and their versions apart by is found among its attributes. -/
theorem build_marks {d : EntityDraft} {e : Entity} (succeeded : d.build = .ok e) :
    declare d.name d.inherited d.attributes = .ok e.attributes ∧
      (∀ version, e.version = some version → ∃ property,
        columnAttribute d.name e.attributes property = .ok version.opening) ∧
      ∀ found, e.discriminator = some found → ∃ property,
        columnAttribute d.name e.attributes property = .ok found.subject := by
  obtain ⟨attributes, declared, succeeded⟩ := bind_eq_ok.mp succeeded
  obtain ⟨discriminator, foundDiscriminator, succeeded⟩ := bind_eq_ok.mp succeeded
  obtain ⟨version, foundVersion, succeeded⟩ := bind_eq_ok.mp succeeded
  split at succeeded
  · cases succeeded
    refine ⟨declared, ?_, ?_⟩
    · rintro found rfl
      obtain ⟨names, -, found⟩ := exists_ok_of_optionMapM foundVersion
      obtain ⟨opening, isOpening, found⟩ := bind_eq_ok.mp found
      obtain ⟨closing, isClosing, found⟩ := bind_eq_ok.mp found
      cases found
      exact ⟨_, isOpening⟩
    · rintro found rfl
      obtain ⟨given, -, found⟩ := exists_ok_of_optionMapM foundDiscriminator
      obtain ⟨subject, isSubject, found⟩ := bind_eq_ok.mp found
      cases found
      exact ⟨_, isSubject⟩
  · contradiction

theorem build_isBuilt {d : EntityDraft} {e : Entity} (inherited : AreDeclared d.inherited)
    (kinds : ∀ a ∈ d.attributes, a.column.isSome = !a.isAssociation) (succeeded : d.build = .ok e) :
    e.IsBuilt := by
  obtain ⟨declared, opening, discriminator⟩ := build_marks succeeded
  have areDeclared := declare_areDeclared inherited kinds declared
  have scalar {property : String} {a : Attribute}
      (found : columnAttribute d.name e.attributes property = .ok a) : a ∈ e.scalars := by
    obtain ⟨member, column⟩ := columnAttribute_mem found
    have isColumn := areDeclared.2 a member
    rw [column] at isColumn
    exact List.mem_filter.mpr ⟨member, by rw [← isColumn, column]; rfl⟩
  refine ⟨areDeclared.1, areDeclared.2, ?_, ?_⟩
  · intro version declared
    obtain ⟨property, isOpening⟩ := opening version declared
    exact scalar isOpening
  · intro found declared
    obtain ⟨property, isSubject⟩ := discriminator found declared
    exact scalar isSubject

end EntityDraft

theorem AttributeDefinition.build_kind {d : AttributeDefinition} {entity : String} {a : Attribute}
    (succeeded : d.build entity = .ok a) : a.column.isSome = !a.isAssociation := by
  obtain ⟨plain, found, succeeded⟩ := bind_eq_ok.mp succeeded
  cases succeeded
  unfold base at found
  split at found
  · cases found
    rfl
  · cases found
    rfl
  · contradiction

namespace Registry

def AreBuilt (registry : Registry) : Prop :=
  ∀ e ∈ registry.all, e.IsBuilt

theorem mem_all_of_entity {registry : Registry} {name : String} {e : Entity}
    (found : registry.entity name = .ok e) : e ∈ registry.all := by
  unfold entity at found
  split at found
  next there =>
    cases found
    exact Keyed.mem_values_of_get? there
  next => contradiction

theorem build_isBuilt {registry : Registry} {d : EntityDefinition} {e : Entity}
    (built : registry.AreBuilt) (succeeded : d.build registry = .ok e) : e.IsBuilt := by
  have kinds {attributes : List Attribute} (defined : d.attributes.mapM (·.build d.name) = .ok attributes) :
      ∀ a ∈ attributes, a.column.isSome = !a.isAssociation := by
    intro a member
    obtain ⟨definition, -, found⟩ := exists_of_mem_mapM defined member
    exact definition.build_kind found
  unfold EntityDefinition.build at succeeded
  cases parent : d.parent with
  | none =>
      rw [parent] at succeeded
      obtain ⟨draft, drafted, succeeded⟩ := bind_eq_ok.mp succeeded
      obtain ⟨attributes, defined, succeeded⟩ := bind_eq_ok.mp succeeded
      cases drafted
      have nothing : EntityDraft.AreDeclared [] := ⟨List.nodup_nil, by simp⟩
      exact EntityDraft.build_isBuilt nothing (kinds defined) succeeded
  | some name =>
      rw [parent] at succeeded
      obtain ⟨draft, drafted, succeeded⟩ := bind_eq_ok.mp succeeded
      obtain ⟨attributes, defined, succeeded⟩ := bind_eq_ok.mp succeeded
      obtain ⟨entity, found, rfl⟩ := map_eq_ok.mp drafted
      have isBuilt := built entity (mem_all_of_entity found)
      exact EntityDraft.build_isBuilt ⟨isBuilt.properties, isBuilt.kinds⟩ (kinds defined) succeeded

theorem register_areBuilt {registry : Registry} {d : EntityDefinition} {e : Entity} (built : registry.AreBuilt)
    (succeeded : d.build registry = .ok e) : (registry.register e).AreBuilt := by
  intro other member
  rcases Keyed.mem_values_insert member with rfl | old
  · exact build_isBuilt built succeeded
  · exact built other old

section Rounds

variable {P : Registry → Prop} {definitions deferred : List EntityDefinition} {registry result : Registry}

/-- What is kept whenever an entity is registered holds after a round, and only definitions wait for the next one. -/
theorem addReady_keeps
    (kept : ∀ d ∈ definitions, ∀ registry e, P registry → d.build registry = .ok e → P (registry.register e))
    (before : P registry) (succeeded : registry.addReady definitions = .ok (result, deferred)) :
    P result ∧ deferred ⊆ definitions := by
  induction definitions generalizing registry deferred with
  | nil =>
      cases succeeded
      exact ⟨before, List.Subset.refl _⟩
  | cons d rest ih =>
      have later := fun other member => kept other (List.mem_cons_of_mem d member)
      rw [addReady] at succeeded
      split at succeeded
      · obtain ⟨e, found, succeeded⟩ := bind_eq_ok.mp succeeded
        have first := kept d (List.mem_cons_self ..) registry e before found
        exact (ih later first succeeded).imp_right (List.subset_cons_of_subset _)
      · obtain ⟨⟨further, others⟩, found, succeeded⟩ := bind_eq_ok.mp succeeded
        cases succeeded
        exact (ih later before found).imp_right (List.cons_subset_cons _)

theorem addAll_keeps {rounds : Nat}
    (kept : ∀ d ∈ definitions, ∀ registry e, P registry → d.build registry = .ok e → P (registry.register e))
    (before : P registry) (succeeded : addAll rounds registry definitions = .ok result) : P result := by
  induction rounds generalizing registry definitions with
  | zero =>
      cases definitions <;> (cases succeeded; exact before)
  | succ rounds ih =>
      cases definitions with
      | nil =>
          cases succeeded
          exact before
      | cons d rest =>
          obtain ⟨⟨further, deferred⟩, found, succeeded⟩ := bind_eq_ok.mp succeeded
          obtain ⟨after, waiting⟩ := addReady_keeps kept before found
          dsimp only at succeeded
          split at succeeded
          · contradiction
          · exact ih (fun other member => kept other (waiting member)) after succeeded

end Rounds

/-- What holds of every registry that is read from a text. -/
structure IsRegistered (registry : Registry) : Prop where
  built : registry.AreBuilt
  validated : registry.validate = .ok ()

theorem isRegistered_of_definitions {definitions : List EntityDefinition} {registry : Registry}
    (succeeded : ofDefinitions definitions = .ok registry) : registry.IsRegistered := by
  obtain ⟨result, added, succeeded⟩ := bind_eq_ok.mp succeeded
  obtain ⟨⟨⟩, validated, succeeded⟩ := bind_eq_ok.mp succeeded
  cases succeeded
  have nothing : AreBuilt {} := fun e member => absurd member List.not_mem_nil
  exact ⟨addAll_keeps (fun _ _ _ _ => register_areBuilt) nothing added, validated⟩

theorem isAssociation_of_targetOf {registry : Registry} {target : Entity} {a : Attribute}
    (found : registry.targetOf a = .ok target) : a.isAssociation = true := by
  unfold targetOf at found
  split at found
  next association declared => exact Option.isSome_of_eq_some declared
  next => contradiction

namespace IsRegistered

variable {registry : Registry} {e target : Entity} {a : Attribute}

theorem mem_of_targetOf (found : registry.targetOf a = .ok target) : target ∈ registry.all := by
  unfold targetOf at found
  split at found
  · exact mem_all_of_entity found
  · contradiction

/-- The target of an association is known, and both sides have its join columns. -/
theorem targetOf_association (registered : registry.IsRegistered) (known : e ∈ registry.all)
    (member : a ∈ e.attributes) (isAssociation : a.isAssociation = true) :
    ∃ target ∈ registry.all, registry.targetOf a = .ok target ∧ a.joinColumns ≠ [] ∧
      ∀ pair ∈ a.joinColumns,
        (e.column? pair.source).isSome = true ∧ (target.column? pair.target).isSome = true := by
  have checked := ok_of_forM (ok_of_forM registered.validated known) member
  obtain ⟨association, declared⟩ := Option.isSome_iff_exists.mp isAssociation
  simp only [checkAttribute, declared] at checked
  split at checked
  · contradiction
  next target there =>
    split at checked
    · contradiction
    next joins =>
      have columns : a.joinColumns = association.joinColumns := by
        simp only [Attribute.joinColumns, declared, Option.map_some, Option.getD_some]
      refine ⟨target, Keyed.mem_values_of_get? there, ?_, ?_, fun pair joined => ?_⟩
      · simp only [targetOf, declared, entity, there]
      · rw [columns]
        simpa using joins
      · rw [columns] at joined
        have found := ok_of_forM checked joined
        unfold checkJoinColumn at found
        split at found
        · contradiction
        next source =>
          split at found
          · contradiction
          next target =>
            exact ⟨by simpa [Option.isSome_iff_ne_none] using source,
              by simpa [Option.isSome_iff_ne_none] using target⟩

end IsRegistered

end Registry

end ViewEngine
