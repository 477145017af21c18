import Mathlib.Data.List.Nodup
import ViewEngine.Schema.Entity

namespace ViewEngine

namespace Value

-- Values are nested in lists and fields, for which no instance can be derived.
mutual

def same : Value → Value → Bool
  | .null, .null => true
  | .bool a, .bool b => a == b
  | .int a, .int b => a == b
  | .float a, .float b => a == b
  | .text a, .text b => a == b
  | .timestamp a, .timestamp b => a == b
  | .list items, .list others => sameItems items others
  | .row fields, .row others => sameFields fields others
  | _, _ => false

def sameItems : List Value → List Value → Bool
  | [], [] => true
  | a :: items, b :: others => a.same b && sameItems items others
  | _, _ => false

def sameFields : List (String × Value) → List (String × Value) → Bool
  | [], [] => true
  | (key, a) :: fields, (name, b) :: others => key == name && a.same b && sameFields fields others
  | _, _ => false

end

mutual

theorem same_iff (a b : Value) : a.same b = true ↔ a = b := by
  cases a with
  | list items => cases b <;> simp [same, sameItems_iff items]
  | row fields => cases b <;> simp [same, sameFields_iff fields]
  | _ => cases b <;> simp [same]

theorem sameItems_iff (items others : List Value) : sameItems items others = true ↔ items = others := by
  cases items with
  | nil => cases others <;> simp [sameItems]
  | cons a rest =>
      cases others with
      | nil => simp [sameItems]
      | cons b more => simp [sameItems, same_iff a b, sameItems_iff rest more]

theorem sameFields_iff (fields others : List (String × Value)) : sameFields fields others = true ↔ fields = others := by
  cases fields with
  | nil => cases others <;> simp [sameFields]
  | cons field rest =>
      cases others with
      | nil => simp [sameFields]
      | cons other more =>
          simp [sameFields, same_iff field.2 other.2, sameFields_iff rest more, Prod.ext_iff]

end

instance : DecidableEq Value := fun a b =>
  decidable_of_iff _ (same_iff a b)

end Value

deriving instance DecidableEq for Discriminator, VersionColumns, Entity

theorem Attribute.column_of_scalar {e : Entity} {a : Attribute} (scalar : a ∈ e.scalars) :
    a.column = some a.columnName := by
  simp only [Entity.scalars, List.mem_filter, Bool.and_eq_true] at scalar
  obtain ⟨column, found⟩ := Option.isSome_iff_exists.mp scalar.2.2
  simp only [columnName, found, Option.getD_some]

theorem Attribute.isAssociation_of_isCollection {a : Attribute} (collection : a.isCollection = true) :
    a.isAssociation = true := by
  obtain ⟨association, declared, -⟩ := (Option.any_eq_true _ _).mp collection
  exact Option.isSome_of_eq_some declared

theorem Attribute.isCollection_of_column {a : Attribute} (column : a.isAssociation = false) :
    a.isCollection = false := by
  rw [Bool.eq_false_iff]
  intro collection
  rw [isAssociation_of_isCollection collection] at column
  contradiction

namespace Entity

/-- What an entity tells its rows and their versions apart by is stored in columns. -/
structure HasMarks (e : Entity) : Prop where
  discriminator : ∀ d, e.discriminator = some d → d.subject.column.isSome = true
  opening : ∀ version, e.version = some version → version.opening.column.isSome = true

variable {e : Entity} {a b : Attribute}

theorem mem_attributes_of_scalar (scalar : a ∈ e.scalars) : a ∈ e.attributes :=
  (List.mem_filter.mp scalar).1

theorem isAssociation_of_scalar (scalar : a ∈ e.scalars) : a.isAssociation = false := by
  have kept := (List.mem_filter.mp scalar).2
  simp only [Bool.and_eq_true, Bool.not_eq_true'] at kept
  exact kept.1

theorem mem_identityKeys_iff :
    a ∈ e.identityKeys ↔ a ∈ e.attributes ∧ a.primaryKey = true ∧ e.isVersionAttribute a = false := by
  simp only [identityKeys, primaryKeys, List.mem_filter, Bool.not_eq_true', and_assoc]

theorem property?_eq_some_iff {property : String} (distinct : (e.attributes.map (·.property)).Nodup) :
    e.property? property = some a ↔ a ∈ e.attributes ∧ a.property = property := by
  constructor
  · intro found
    exact ⟨List.mem_of_find?_eq_some found, by simpa using List.find?_some found⟩
  · rintro ⟨member, rfl⟩
    cases found : e.property? a.property with
    | none => simpa using List.find?_eq_none.mp found a member
    | some b =>
        have same : b.property = a.property := by simpa using List.find?_some found
        rw [List.inj_on_of_nodup_map distinct (List.mem_of_find?_eq_some found) member same]

end Entity

end ViewEngine
