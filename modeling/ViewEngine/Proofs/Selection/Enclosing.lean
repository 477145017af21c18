import Mathlib.Data.List.Infix
import ViewEngine.Proofs.Assembly.Views
import ViewEngine.Proofs.Propagation.Ways
import ViewEngine.Proofs.Selection.Statements

/-!
The statements for the collections of a tree. There is one for each collection, after those for the collections around
it, and it selects the keys by which their elements are told apart.
-/

namespace ViewEngine

open Sql Compile JoinPlan

def Path.starts (path : String) : List String :=
  ((Path.properties path).dropLast.inits.tail).map (".".intercalate ·)

/-- The rows of entities are known by columns, whose names have no dots. -/
structure Registry.IsIdentified (registry : Registry) : Prop where
  built : registry.AreBuilt
  keys : ∀ e ∈ registry.all, ∀ key ∈ e.storageKeys, key.column.isSome = true ∧ '.' ∉ key.property.toList

/-- A view with a statement for each collection of a tree. The collections around another one are those on its path,
and have their statements before; their keys are selected from the tables that are joined for them. -/
structure CompiledView.CoversCollections (v : CompiledView) (registry : Registry) (t : FilterTree) : Prop where
  distinct : (v.subSelects.map (·.path)).Nodup
  complete : ∀ path, path ∈ v.subSelects.map (·.path) ↔ t.HasCollection registry path
  enclosing : ∀ s ∈ v.subSelects, s.enclosing.map (·.path) = (Path.starts s.path).filter v.isCollection
  keyed : ∀ s ∈ v.subSelects, s.part.IsAligned ∧ ∀ outer ∈ s.enclosing, ∃ entry,
    v.joinPlan.atPath? outer.path = some entry ∧ outer.keys = entry.entity.elementKeys ∧
      ∀ key ∈ entry.entity.storageKeys, ∃ column, key.column = some column ∧
        ⟨.columnOf entry.table column, ⟨Path.child outer.path key.property, some key, .value⟩⟩ ∈ s.part.projections
  ordered : ∀ front s back, v.subSelects = front ++ s :: back →
    ∀ outer ∈ s.enclosing, ∃ u ∈ front, u.path = outer.path

namespace CompiledView

variable {v : CompiledView} {path : String}

theorem isCollection_iff : v.isCollection path = true ↔ path ∈ v.subSelects.map (·.path) := by
  rw [isCollection, subSelect?, List.find?_isSome, List.mem_map]
  exact exists_congr fun s => and_congr_right fun _ => beq_iff_eq

end CompiledView

namespace Compile

section Along

variable {registry : Registry} {setting : Setting} {roots es : List Entity} {names : List String}
  {outers : List EnclosingCollection} {s : SubSelect}

theorem Along.steps (addressable : setting.IsAddressable roots) (along : Along setting.registry roots names es outers) :
    ∀ name ∈ names, IsStep name := by
  have further {names : List String} {es : List Entity} {outers : List EnclosingCollection} {e target : Entity}
      {a : Attribute} (along : Along setting.registry roots names es outers)
      (declared : declarer? es a.property = some (e, a)) (found : setting.registry.targetOf a = .ok target)
      (steps : ∀ name ∈ names, IsStep name) : ∀ name ∈ names ++ [a.property], IsStep name := by
    refine List.forall_mem_append.mpr ⟨steps, List.forall_mem_singleton.mpr ?_⟩
    exact addressable.steps e (along.known e (declarer?_eq_some declared).1) a (declarer?_mem declared)
      (Registry.isAssociation_of_targetOf found)
  induction along with
  | root => simp
  | single along declared found _ ih => exact further along declared found ih
  | collection along declared found _ _ ih => exact further along declared found ih

theorem filter_starts_concat (names : List String) (name : String) (isCollection : String → Bool) :
    ((names ++ [name]).inits.tail.map (".".intercalate ·)).filter isCollection =
      (names.inits.tail.map (".".intercalate ·)).filter isCollection ++
        if isCollection (".".intercalate (names ++ [name])) then [".".intercalate (names ++ [name])] else [] := by
  have starts : (names ++ [name]).inits.tail = names.inits.tail ++ [names ++ [name]] := by
    cases names <;> simp [List.inits_append]
  rw [starts, List.map_append, List.filter_append, List.map_singleton, List.filter_singleton, cond_eq_ite]

theorem Along.outers_eq (addressable : setting.IsAddressable roots)
    (along : Along setting.registry roots names es outers) {isCollection : String → Bool}
    (all : ∀ outer ∈ outers, isCollection outer.path = true)
    (only : ∀ path, isCollection path = true → ∃ es around keys,
      Along setting.registry roots (Path.properties path) es (around ++ [⟨path, keys⟩])) :
    outers.map (·.path) = (names.inits.tail.map (".".intercalate ·)).filter isCollection := by
  induction along with
  | root => rfl
  | @single names es outers e target a along declared found single ih =>
      have next := Along.single along declared found single
      have isLast : isCollection (".".intercalate (names ++ [a.property])) = false := by
        rw [Bool.eq_false_iff]
        intro collection
        obtain ⟨others, around, keys, again⟩ := only _ collection
        rw [Path.properties_intercalate (next.steps addressable)] at again
        obtain ⟨-, -, starts, -⟩ := along.enclosing (next.unique again).2
        rw [Path.properties_intercalate (next.steps addressable)] at starts
        have long := starts.length_le
        rw [List.length_append, List.length_singleton] at long
        exact Nat.not_succ_le_self _ long
      rw [filter_starts_concat, ← ih all, isLast]
      exact (List.append_nil _).symm
  | @collection names es outers e target a path along declared found collection isPath ih =>
      obtain ⟨before, last⟩ := List.forall_mem_append.mp all
      have last := List.forall_mem_singleton.mp last
      rw [filter_starts_concat, ← ih before, ← isPath, Path.intercalate_properties, if_pos last, List.map_append]
      rfl

theorem IsServed.enclosing_starts (addressable : setting.IsAddressable roots)
    (served : IsServed setting.registry roots s) {isCollection : String → Bool} (here : isCollection s.path = true)
    (all : ∀ outer ∈ s.enclosing, isCollection outer.path = true)
    (only : ∀ path, isCollection path = true → ∃ es around keys,
      Along setting.registry roots (Path.properties path) es (around ++ [⟨path, keys⟩])) :
    s.enclosing.map (·.path) = (Path.starts s.path).filter isCollection := by
  obtain ⟨target, along⟩ := served
  have whole := along.outers_eq addressable
    (List.forall_mem_append.mpr ⟨all, List.forall_mem_singleton.mpr here⟩) only
  rcases List.eq_nil_or_concat' (Path.properties s.path) with root | ⟨front, last, isPath⟩
  · rw [root] at along
    exact absurd (along.unique .root).2 (by simp)
  · rw [isPath, filter_starts_concat, ← isPath, Path.intercalate_properties, if_pos here, List.map_append] at whole
    rw [Path.starts, isPath, List.dropLast_concat]
    exact List.append_cancel_right whole

end Along

section Keys

variable {setting : Setting} {roots : List Entity} {plan : JoinPlan} {r : Root} {s : SubSelect} {c : Collected}

/-- The keys of the elements around a collection are selected first, so that nothing takes their labels. -/
theorem Root.Selects.keyed (selects : r.Selects setting roots plan s c) (addressable : setting.IsAddressable roots)
    (built : plan.IsBuilt setting roots) (identified : setting.registry.IsIdentified)
    (nested : ∀ outer ∈ s.enclosing, outer.path ≠ "")
    (apart : ∀ outer ∈ s.enclosing, ∀ key ∈ outer.keys, Path.child outer.path key ≠ r.keyAlias) :
    ∀ outer ∈ s.enclosing, ∃ entry, plan.atPath? outer.path = some entry ∧ outer.keys = entry.entity.elementKeys ∧
      ∀ key ∈ entry.entity.storageKeys, ∃ column, key.column = some column ∧
        ⟨.columnOf entry.table column, ⟨Path.child outer.path key.property, some key, .value⟩⟩ ∈
          s.part.projections := by
  obtain ⟨outers, enclosing, lead, columns⟩ := selects.columns
  rw [enclosing] at nested apart ⊢
  rw [List.forall_mem_map] at nested apart ⊢
  intro outer member
  obtain ⟨way, leads⟩ := lead outer member
  obtain ⟨entry, isEntry, same, number⟩ := leads.atPath? built (nested outer member)
  have entity : outer.entity = entry.entity := List.singleton_inj.mp same
  refine ⟨entry, isEntry, entity ▸ rfl, fun key isKey => ?_⟩
  rw [← entity] at isKey
  have known (o : JoinedCollection) (inside : o ∈ outers) : o.entity ∈ setting.registry.all := by
    obtain ⟨_, leads⟩ := lead o inside
    obtain ⟨j, found, same, -⟩ := leads.atPath? built (nested o inside)
    rw [List.singleton_inj.mp same]
    exact Registry.IsRegistered.mem_of_targetOf (built.entries j (List.mem_of_find?_eq_some found)).found
  have inEntity (o : JoinedCollection) (inside : o ∈ outers) (key : Attribute) (isKey : key ∈ o.entity.storageKeys) :
      key ∈ o.entity.attributes := by
    rcases List.mem_append.mp isKey with identity | opening
    · exact (Entity.mem_identityKeys_iff.mp identity).1
    · obtain ⟨version, declared, rfl⟩ := Option.map_eq_some_iff.mp (Option.mem_toList.mp opening)
      exact Entity.mem_attributes_of_scalar ((identified.built _ (known o inside)).opening version declared)
  obtain ⟨stored, whole⟩ := identified.keys _ (known outer member) key isKey
  obtain ⟨column, stored⟩ := Option.isSome_iff_exists.mp stored
  refine ⟨column, stored, ?_⟩
  rw [number, columns, putColumns_append]
  refine (putColumns_grow _ _).subset (mem_putColumns_of_apart ?_ ?_ ?_)
  · refine List.mem_flatMap.mpr ⟨outer, member, List.mem_filterMap.mpr ⟨key, isKey, ?_⟩⟩
    rw [Attribute.columnAt?, stored]
    rfl
  · refine List.forall_mem_singleton.mpr (Ne.symm (apart outer member key.property ?_))
    have names : outer.describe.keys = outer.entity.storageKeys.map (·.property) := by
      simp [JoinedCollection.describe, Entity.storageKeys, Option.toList_map]
    rw [names]
    exact List.mem_map_of_mem isKey
  · intro q offered label
    obtain ⟨other, among, isColumn⟩ := List.mem_flatMap.mp offered
    obtain ⟨b, otherKey, isColumn⟩ := List.mem_filterMap.mp isColumn
    obtain ⟨name, held, rfl⟩ := Option.map_eq_some_iff.mp isColumn
    have otherWhole := (identified.keys _ (known other among) b otherKey).2
    have cut := congrArg Path.splitProperty label
    rw [Path.splitProperty_child _ otherWhole, Path.splitProperty_child _ whole] at cut
    obtain ⟨samePath, property⟩ := Prod.mk.inj cut
    obtain ⟨_, otherLeads⟩ := lead other among
    rw [samePath] at otherLeads
    obtain ⟨-, sameEntity, sameTable⟩ := otherLeads.eq_of_path addressable built leads
    have sameEntity := List.singleton_inj.mp sameEntity
    have isMember := inEntity other among b otherKey
    rw [sameEntity] at isMember
    obtain rfl := (identified.built _ (known outer member)).eq_of_property isMember
      (inEntity outer member key isKey) property
    cases held.symm.trans stored
    rw [sameTable, samePath]

end Keys

end Compile

section Compiled

variable {registry : Registry} {settings : ViewSettings} {dialect : Dialect} {pointInTime : Option Timestamp}
  {page : Page} {t : FilterTree} {v : CompiledView}

/-- Each collection of a tree gets one statement, in an order in which its elements find those that they lie in. The
rounds in which the statements are made come to an end. -/
theorem collections_are_covered (addressable : Setting.IsAddressable ⟨registry, pointInTime⟩ t.roots)
    (identified : registry.IsIdentified) (compiled : compile registry settings dialect pointInTime page t = .ok v)
    (apart : ∀ s ∈ v.subSelects, ∀ outer ∈ s.enclosing, ∀ key ∈ outer.keys,
      Path.child outer.path key ≠ settings.rootKeyAlias) :
    v.CoversCollections registry t ∧
      ∃ state, Compile.primary ⟨registry, pointInTime⟩ (.ofTree settings t) t = .ok state ∧
        RunsOut ⟨registry, pointInTime⟩ (.ofTree settings t) state.deferred state.plan state.nextTable
          (.ok (v.subSelects, v.joinPlan)) := by
  have areServed := compile_served addressable compiled
  obtain ⟨-, selects⟩ := compile_selects addressable compiled
  obtain ⟨built, -, -, -⟩ := compile_made addressable compiled
  have paths : v.subSelects.map (·.path) = (collectedFrom registry v.joinPlan t).map (·.path) := by
    rw [← List.forall₂_eq_eq_eq, List.forall₂_map_left_iff, List.forall₂_map_right_iff]
    exact selects.imp fun _ _ each => each.path
  have before : ∀ front s back, v.subSelects = front ++ s :: back →
      ∀ outer ∈ s.enclosing, ∃ u ∈ front, u.path = outer.path := by
    intro front s back through outer member
    obtain ⟨shorter, longer, split⟩ := List.append_of_mem member
    obtain ⟨u, made, path, -⟩ := areServed.enclosed front s back through shorter outer longer split
    exact ⟨u, made, path⟩
  have isAround {s : SubSelect} (member : s ∈ v.subSelects) (outer : EnclosingCollection)
      (inside : outer ∈ s.enclosing) : v.isCollection outer.path = true := by
    obtain ⟨front, back, through⟩ := List.append_of_mem member
    obtain ⟨u, made, path⟩ := before front s back through outer inside
    rw [CompiledView.isCollection_iff, ← path, through]
    exact List.mem_map_of_mem (List.mem_append_left _ made)
  refine ⟨⟨List.pairwise_map.mpr areServed.distinct, fun path => ?_, fun s member => ?_, fun s member => ?_, before⟩,
    ?_⟩
  · rw [paths]
    exact mem_collectedFrom_iff addressable
  · refine (areServed.served s member).1.enclosing_starts addressable
      (CompiledView.isCollection_iff.mpr (List.mem_map_of_mem member)) (isAround member) fun path collection => ?_
    obtain ⟨u, made, rfl⟩ := List.mem_map.mp (CompiledView.isCollection_iff.mp collection)
    obtain ⟨target, along⟩ := (areServed.served u made).1
    exact ⟨_, _, _, along⟩
  · obtain ⟨c, -, selects⟩ := exists_of_mem_left selects member
    refine ⟨selects.aligned, selects.keyed addressable built identified (fun outer inside root => ?_) (apart s member)⟩
    obtain ⟨shorter, longer, through⟩ := List.append_of_mem inside
    obtain ⟨target, along⟩ := (areServed.served s member).1
    rw [through, List.append_assoc] at along
    obtain ⟨_, here, -⟩ := along.enclosing rfl
    rw [root] at here
    exact absurd (here.unique .root).2 (by simp)
  · exact compile_runsOut compiled

end Compiled

namespace Outline

set_option maxRecDepth 100000 in
/-- The parts of the products of lines have their statement after that of the lines, whose keys they are fetched
with. -/
theorem parts_are_covered : ∃ registry t v, FilledOutline.orders.compiled? = some (registry, t, v) ∧
    Setting.IsAddressable ⟨registry, none⟩ t.roots ∧ registry.IsIdentified ∧
    (∀ s ∈ v.subSelects, ∀ outer ∈ s.enclosing, ∀ key ∈ outer.keys, Path.child outer.path key ≠ "rootKey") ∧
    v.subSelects.map (fun s => (s.path, s.enclosing)) =
      [("lines", []), ("lines.product.parts", [⟨"lines", ["id"]⟩])] ∧
    v.CoversCollections registry t ∧
    ∃ state, Compile.primary ⟨registry, none⟩ (.ofTree {} t) t = .ok state ∧
      RunsOut ⟨registry, none⟩ (.ofTree {} t) state.deferred state.plan state.nextTable
        (.ok (v.subSelects, v.joinPlan)) := by
  have checked : (FilledOutline.orders.compiled?.map fun found => found.2.1.otherRoots.isEmpty &&
      decide (∀ e ∈ found.2.1.roots ++ found.1.all, ∀ a ∈ e.attributes, a.isAssociation = true → IsStep a.property) &&
      decide (∀ e ∈ found.1.all, ∀ key ∈ e.storageKeys, key.column.isSome = true ∧ '.' ∉ key.property.toList) &&
      decide (∀ s ∈ found.2.2.subSelects, ∀ outer ∈ s.enclosing, ∀ key ∈ outer.keys,
        Path.child outer.path key ≠ "rootKey") &&
      found.2.2.subSelects.map (fun s => (s.path, s.enclosing)) ==
        [("lines", []), ("lines.product.parts", [⟨"lines", ["id"]⟩])]) = some true := by
    decide +kernel
  obtain ⟨⟨registry, t, v⟩, found, checked⟩ := Option.map_eq_some_iff.mp checked
  simp only [Bool.and_eq_true, decide_eq_true_eq, beq_iff_eq] at checked
  obtain ⟨⟨⟨⟨single, steps⟩, keys⟩, apart⟩, statements⟩ := checked
  have accepted := declared_eq found rfl
  obtain ⟨-, -, compiled⟩ := compiled_eq found
  have addressable : Setting.IsAddressable ⟨registry, none⟩ t.roots := ⟨steps, areAgreed_of_isEmpty single⟩
  have identified : registry.IsIdentified := ⟨(Registry.isRegistered_of_definitions accepted).built, keys⟩
  exact ⟨registry, t, v, found, addressable, identified, apart, statements,
    collections_are_covered addressable identified compiled apart⟩

/-- The parts of the lines of an order, and those of the order itself, under two given names. -/
def parts (lines own : String) : Outline where
  definitions := [
    entity "Order" "orders" [column "id" "id" .bigInt true, association lines "Line" "line" "id" "order_id" true,
      association own "Part" "part" "id" "order_id" true],
    entity "Line" "line" [column "id" "id" .bigInt true, column "order" "order_id" .bigInt false,
      association "parts" "Part" "part" "id" "line_id" true],
    entity "Part" "part" [column "id" "id" .bigInt true, column "line" "line_id" .bigInt false,
      column "order" "order_id" .bigInt false]]
  roots := ["Order"]
  chains := [asks "Order" [own, "id"], asks "Order" [lines, "parts", "id"]]

/-- Screws of the parts of lines. The lines are known by a property of a given name, and the root keys have a label. -/
def screws (key label : String) : Outline where
  definitions := [
    entity "Order" "orders" [column "id" "id" .bigInt true, association "lines" "Line" "line" "id" "order_id" true],
    entity "Line" "line" [column key "no" .bigInt true, column "order" "order_id" .bigInt false,
      association "parts" "Part" "part" "no" "line_no" true],
    entity "Part" "part" [column "id" "id" .bigInt true, column "line" "line_no" .bigInt false,
      association "screws" "Screw" "screw" "id" "part_id" true],
    entity "Screw" "screw" [column "no" "no" .bigInt true, column "part" "part_id" .bigInt false]]
  roots := ["Order"]
  chains := [asks "Order" ["lines", "parts", "screws", "no"]]
  settings := { rootKeyAlias := label }

/-- The compiled statements are not those that the collections need, though the label of the root keys is no path. -/
def MissesCollections (o : Outline) : Prop :=
  ∃ registry t v, Registry.ofDefinitions o.definitions = .ok registry ∧ o.tree? registry = some t ∧
    t.otherRoots = [] ∧ (∀ e ∈ registry.all, ∀ key ∈ e.storageKeys, key.column.isSome = true) ∧
    o.settings.rootKeyAlias ∉ FilterNode.pathsOfAll "" t.nodes ∧
    compile registry o.settings .sqlite o.pointInTime {} t = .ok v ∧ ¬ v.CoversCollections registry t

def isIncomplete (v : CompiledView) : Bool :=
  !decide (v.subSelects.map (·.path)).Nodup || v.subSelects.any fun s => s.enclosing.any fun outer =>
    (v.joinPlan.atPath? outer.path).any fun entry => entry.entity.storageKeys.any fun key =>
      s.columns.all fun b => b.subject != some key

theorem not_covers_of_isIncomplete {v : CompiledView} {registry : Registry} {t : FilterTree}
    (incomplete : isIncomplete v = true) : ¬ v.CoversCollections registry t := by
  intro covers
  rcases Bool.or_eq_true_iff.mp incomplete with twice | lacking
  · exact absurd covers.distinct (by simpa using twice)
  · simp only [List.any_eq_true, Option.any_eq_true, List.all_eq_true, bne_iff_ne] at lacking
    obtain ⟨s, member, outer, around, entry, isEntry, key, isKey, missing⟩ := lacking
    obtain ⟨aligned, keyed⟩ := covers.keyed s member
    obtain ⟨same, found, -, selected⟩ := keyed outer around
    cases isEntry.symm.trans found
    obtain ⟨column, -, selected⟩ := selected key isKey
    have bound := List.mem_map_of_mem selected (f := (·.binding))
    rw [← aligned.columns] at bound
    exact missing _ bound rfl

theorem missesCollections_of_any {o : Outline} (declared : o.registry = (Registry.ofDefinitions o.definitions).toOption)
    (checked : (o.compiled?.any fun (registry, t, v) => t.otherRoots.isEmpty &&
      decide (∀ e ∈ registry.all, ∀ key ∈ e.storageKeys, key.column.isSome = true) &&
      decide (o.settings.rootKeyAlias ∉ FilterNode.pathsOfAll "" t.nodes) && isIncomplete v) = true) :
    o.MissesCollections := by
  obtain ⟨⟨registry, t, v⟩, found, holds⟩ := (Option.any_eq_true _ _).mp checked
  obtain ⟨-, tree, compiled⟩ := compiled_eq found
  simp only [Bool.and_eq_true, decide_eq_true_eq] at holds
  obtain ⟨⟨⟨single, keys⟩, apart⟩, incomplete⟩ := holds
  exact ⟨registry, t, v, declared_eq found declared, tree, List.isEmpty_iff.mp single, keys, apart, compiled,
    not_covers_of_isIncomplete incomplete⟩

set_option maxRecDepth 100000 in
/-- Where paths of associations or of keys are not the ones of their properties alone, collections share a statement's
path, or lack the keys around them. -/
theorem collections_are_missed : (parts "lines" "lines.parts").MissesCollections ∧
    (parts "" "parts").MissesCollections ∧ (screws "parts.id" "rootKey").MissesCollections ∧
    (screws "no" "lines.no").MissesCollections := by
  refine ⟨missesCollections_of_any rfl ?_, missesCollections_of_any rfl ?_, missesCollections_of_any rfl ?_,
    missesCollections_of_any rfl ?_⟩
  all_goals decide +kernel

end Outline

end ViewEngine
