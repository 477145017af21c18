import ViewEngine.Proofs.Composition.Made
import ViewEngine.Proofs.Requests.Answered
import ViewEngine.Proofs.Selection.Enclosing
import ViewEngine.Proofs.Writing.Fetched

/-!
Attributes of several roots under one property. The columns of a statement and the joins of a plan are found by their
paths alone. So a path leads to one attribute, and to the other one as well where two roots have the property.
-/

namespace ViewEngine

open Sql Compile JoinPlan

def JoinPlan.tableOf (plan : JoinPlan) (path : String) : Nat :=
  ((plan.atPath? path).map (·.table)).getD 0

def FilterTree.HasAlone (t : FilterTree) (names : List String) (a : Attribute) : Prop :=
  names = [] → ∀ e ∈ t.roots, ∀ b ∈ e.attributes, b.property = a.property → b = a

/-- Under the path of a column its part selects that column, and nothing else. At the path of an association the plan
has the join of that association. -/
structure CompiledView.FindsOwn (v : CompiledView) (registry : Registry) (t : FilterTree) : Prop where
  parts : (v.parts.map (·.path)).Nodup
  columns : ∀ part names es n e a column, t.Reaches registry part names es n → n.item.aggregate = none →
    resolve? n.item es = some (e, a) → a.isAssociation = false → a.column = some column → t.HasAlone names a →
    ∃ x ∈ v.parts, x.path = part ∧ x.IsAligned ∧
      x.projections.filter (·.binding.label == ".".intercalate (names ++ [a.property])) =
        [⟨.columnOf (v.joinPlan.tableOf (".".intercalate names)) column,
          ⟨".".intercalate (names ++ [a.property]), some a, .value⟩⟩]
  associations : ∀ part names es n e a, t.Reaches registry part names es n → resolve? n.item es = some (e, a) →
    a.isAssociation = true →
    ∃ entry, v.joinPlan.atPath? (".".intercalate (names ++ [a.property])) = some entry ∧ entry.subject = a

/-- Entities as they are built, with plain properties, from which the tree starts. -/
structure FilterTree.IsPlain (registry : Registry) (t : FilterTree) : Prop where
  registered : registry.IsRegistered
  roots : ∀ e ∈ t.roots, e ∈ registry.all
  whole : ∀ e ∈ registry.all, ∀ a ∈ e.attributes, '.' ∉ a.property.toList
  unnamed : ∀ item ∈ FilterNode.itemsOfAll t.nodes, item.outputName = none

section Rows

variable {setting : Setting} {roots es : List Entity} {plan : JoinPlan} {way : List JoinEntry} {table : Nat}
  {above name : String} {p : Projection} {e : Entity} {a : Attribute}

theorem JoinPlan.Leads.tableOf (addressable : setting.IsAddressable roots) (built : plan.IsBuilt setting roots)
    (leads : plan.Leads roots way es table above) : plan.tableOf above = table := by
  by_cases root : above = ""
  · subst root
    obtain ⟨-, -, rfl⟩ := leads.eq_of_path addressable built .root
    cases found : plan.atPath? "" with
    | none => rw [JoinPlan.tableOf, found]; rfl
    | some j =>
        obtain ⟨others, entities, before, reached, declares, named⟩ := built.reached j (List.mem_of_find?_eq_some found)
        have empty : j.path = "" := by simpa using List.find?_some found
        have step := reached.isStep addressable built declares (built.entries j (List.mem_of_find?_eq_some found)).found
        exact absurd (named.symm.trans empty) (Path.child_ne_empty step)
  · obtain ⟨j, found, -, number⟩ := leads.atPath? built root
    rw [JoinPlan.tableOf, found]
    exact number

theorem Compile.Projection.IsOwn.eq_of_label (own : p.IsOwn plan roots) (addressable : setting.IsAddressable roots)
    (built : plan.IsBuilt setting roots) (leads : plan.Leads roots way es table above)
    (whole : ∀ e ∈ roots ++ setting.registry.all, ∀ a, e.Offers a → '.' ∉ a.property.toList)
    (isName : '.' ∉ name.toList) (label : p.binding.label = Path.child above name) :
    ∃ e ∈ es, ∃ a, e.Offers a ∧ a.property = name ∧ a.columnAt? table above = some p := by
  obtain ⟨_, others, number, path, e, a, reaches, member, offers, column⟩ := own
  obtain ⟨stored, isColumn, rfl⟩ := Option.map_eq_some_iff.mp column
  have cut := congrArg Path.splitProperty label
  rw [Path.splitProperty_child _ (whole e (reaches.known built e member) a offers),
    Path.splitProperty_child _ isName] at cut
  obtain ⟨rfl, property⟩ := Prod.mk.inj cut
  obtain ⟨-, rfl, rfl⟩ := reaches.eq_of_path addressable built leads
  exact ⟨e, member, a, offers, property, column⟩

end Rows

section Parts

variable {setting : Setting} {roots : List Entity} {plan : JoinPlan} {key : Projection} {x : Part} {y : Reached}
  {reached : List Reached} {offered : List Projection}

/-- Nothing else than the column of a node has the path of that node, if no other attribute there has its property. -/
theorem Part.Shows.filter_column (shows : x.Shows setting.registry plan roots key reached offered)
    (addressable : setting.IsAddressable roots) (built : plan.IsBuilt setting roots)
    (entities : ∀ e ∈ roots ++ setting.registry.all, e.IsBuilt)
    (whole : ∀ e ∈ roots ++ setting.registry.all, ∀ a ∈ e.attributes, '.' ∉ a.property.toList)
    (unnamed : ∀ y ∈ reached, y.item.outputName = none) (member : y ∈ reached) (isColumn : y.isColumn = true)
    {column : String} (stored : y.subject.column = some column) (free : y.path ≠ key.binding.label)
    {way : List JoinEntry} {es : List Entity} {above : String} (leads : plan.Leads roots way es y.table above)
    (path : y.path = Path.child above y.subject.property) (isName : '.' ∉ y.subject.property.toList)
    (alone : ∀ e ∈ es, ∀ b ∈ e.attributes, b.property = y.subject.property → b = y.subject) :
    x.projections.filter (·.binding.label == y.path) =
      [⟨.columnOf y.table column, ⟨y.path, some y.subject, .value⟩⟩] := by
  have plain {z : Reached} (among : z ∈ reached) : z.alias = z.path := by rw [Reached.alias, unnamed z among]; rfl
  have offers := shows.column y member isColumn column stored
  rw [plain member] at offers
  have isOffered (e : Entity) (inside : e ∈ roots ++ setting.registry.all) (a : Attribute) (offers : e.Offers a) :
      '.' ∉ a.property.toList := whole e inside a (offers.mem_attributes (entities e inside))
  -- Another node with that path is on the same rows, so that it asks for the same attribute.
  have same {z : Reached} (among : z ∈ reached) (label : z.path = y.path) :
      z.subject = y.subject ∧ z.table = y.table := by
    obtain ⟨way', es', e', above', leads', found, isPath⟩ := shows.leads z among
    obtain ⟨inside, held, -⟩ := resolve?_eq_some found
    have isAttribute : z.subject ∈ e'.attributes := List.mem_of_find?_eq_some held
    rw [isPath, path] at label
    have cut := congrArg Path.splitProperty label
    rw [Path.splitProperty_child _ (whole e' (leads'.known built e' inside) _ isAttribute),
      Path.splitProperty_child _ isName] at cut
    obtain ⟨rfl, property⟩ := Prod.mk.inj cut
    obtain ⟨-, rfl, table⟩ := leads'.eq_of_path addressable built leads
    exact ⟨alone e' inside _ isAttribute property, table⟩
  have only : ∀ q ∈ offered, q.binding.label = y.path →
      q = ⟨.columnOf y.table column, ⟨y.path, some y.subject, .value⟩⟩ := by
    intro q isOffer label
    rcases shows.cases q isOffer with ⟨z, among, asks⟩ | own
    · cases asks with
      | column isColumn' stored' =>
          obtain ⟨subject, table⟩ := same among ((plain among).symm.trans label)
          rw [subject] at stored'
          cases stored'.symm.trans stored
          rw [plain among, subject, table, (plain among).symm.trans label]
      | count counted expr =>
          obtain ⟨subject, -⟩ := same among ((plain among).symm.trans label)
          obtain ⟨target, found, -⟩ := shows.planned z among (by simp [Reached.isJoined, counted])
          have isAssociation := Registry.isAssociation_of_targetOf found
          simp [Reached.isColumn, ← subject, isAssociation] at isColumn
    · rw [path] at label
      obtain ⟨e, inside, b, offers, property, held⟩ :=
        own.eq_of_label addressable built leads isOffered isName label
      obtain rfl := alone e inside b (offers.mem_attributes (entities e (leads.known built e inside))) property
      rw [Attribute.columnAt?, stored] at held
      cases held
      rw [path]
  have distinct : ([key].map (·.binding.label)).Nodup := List.nodup_singleton _
  rw [shows.columns]
  refine filter_label (nodup_putColumns distinct _) (mem_putColumns_of_apart offers ?_ only)
  exact List.forall_mem_singleton.mpr (Ne.symm free)

end Parts

section Compiled

variable {registry : Registry} {settings : ViewSettings} {dialect : Dialect} {pointInTime : Option Timestamp}
  {page : Page} {t : FilterTree} {v : CompiledView}

theorem parts_apart (addressable : Setting.IsAddressable ⟨registry, pointInTime⟩ t.roots)
    (compiled : compile registry settings dialect pointInTime page t = .ok v) : (v.parts.map (·.path)).Nodup := by
  have areServed := compile_served addressable compiled
  rw [CompiledView.parts, List.map_cons, List.map_map, List.nodup_cons]
  refine ⟨fun member => ?_, List.pairwise_map.mpr areServed.distinct⟩
  obtain ⟨s, inside, path⟩ := List.mem_map.mp member
  obtain ⟨⟨target, along⟩, -⟩ := areServed.served s inside
  rw [show s.path = "" from path] at along
  exact absurd (along.unique .root).2 (by simp)

theorem exists_join (addressable : Setting.IsAddressable ⟨registry, pointInTime⟩ t.roots)
    (compiled : compile registry settings dialect pointInTime page t = .ok v) {part : String} {reached : List Reached}
    (isPart : IsReachedIn registry v.joinPlan t part reached) {y : Reached} (member : y ∈ reached)
    (isAssociation : y.subject.isAssociation = true) : ∃ j ∈ v.joinPlan.entries, j.path = y.path := by
  obtain ⟨built, -⟩ := compile_made addressable compiled
  obtain ⟨x, inside, isPath, offered, shows⟩ := exists_part addressable compiled isPart
  by_cases collection : y.isCollection = true
  · obtain ⟨c, isCollected, same, -⟩ := isPart.exists_collected member collection
    obtain ⟨s, -, selects⟩ := exists_of_mem_left (compile_selects addressable compiled).2.flip isCollected
    obtain ⟨way, es, e, above, leads, found, place⟩ := shows.leads y member
    obtain ⟨holder, held, -⟩ := resolve?_eq_some found
    have step := addressable.steps e (leads.known built e holder) _ (List.mem_of_find?_eq_some held) isAssociation
    obtain ⟨_, _, -, reaches⟩ := selects.leads
    obtain ⟨j, isEntry, -⟩ := reaches.atPath? built (same ▸ place ▸ Path.child_ne_empty step)
    exact ⟨j, List.mem_of_find?_eq_some isEntry, (by simpa using List.find?_some isEntry : j.path = c.path).trans same⟩
  · have isJoined : y.isJoined = true := by
      cases counted : y.item.aggregate <;> simp_all [Reached.isJoined, Reached.isCollection]
    obtain ⟨_, -, planned⟩ := shows.planned y member isJoined
    obtain ⟨j, isEntry⟩ := Option.isSome_iff_exists.mp planned
    have holds := List.find?_some isEntry
    rw [Bool.and_eq_true, beq_iff_eq, beq_iff_eq] at holds
    exact ⟨j, List.mem_of_find?_eq_some isEntry, holds.1⟩

/-- A node finds its own attribute under its path, if on the root rows no other root has its property. -/
theorem attributes_are_told_apart (addressable : Setting.IsAddressable ⟨registry, pointInTime⟩ t.roots)
    (plain : t.IsPlain registry) (free : settings.rootKeyAlias ∉ FilterNode.pathsOfAll "" t.nodes)
    (compiled : compile registry settings dialect pointInTime page t = .ok v) : v.FindsOwn registry t := by
  obtain ⟨built, -⟩ := compile_made addressable compiled
  have known {e : Entity} (member : e ∈ t.roots ++ registry.all) : e ∈ registry.all :=
    (List.mem_append.mp member).elim (plain.roots e) id
  refine ⟨parts_apart addressable compiled, ?_, ?_⟩
  · intro part names es n e a column reaches single found isColumn stored alone
    obtain ⟨reached, isPart, y, member, item, -, rfl, path⟩ := reaches.exists_reached addressable v.joinPlan found
    obtain ⟨x, inside, isPath, offered, shows⟩ := exists_part addressable compiled isPart
    obtain ⟨way, es', e', above, leads, found', place⟩ := shows.leads y member
    obtain ⟨holder, held, -⟩ := resolve?_eq_some found'
    have isKnown := known (leads.known built e' holder)
    have isName := plain.whole e' isKnown _ (List.mem_of_find?_eq_some held)
    obtain ⟨steps, outers, along⟩ := reaches.along addressable
    have start : above = ".".intercalate names := by
      rw [place, Path.intercalate_concat fun name early => (steps name early).1] at path
      have cut := congrArg Path.splitProperty path
      rw [Path.splitProperty_child _ isName, Path.splitProperty_child _ isName] at cut
      exact congrArg Prod.fst cut
    refine ⟨x, inside, isPath, shows.aligned, ?_⟩
    rw [← path, ← start, leads.tableOf addressable built]
    refine shows.filter_column addressable built (fun e inside => plain.registered.built e (known inside))
      (fun e inside => plain.whole e (known inside)) (fun z among => ?_) member ?_ stored ?_ leads place isName ?_
    · obtain ⟨names, es, e, reaches, -⟩ := isPart.reaches addressable among
      exact plain.unnamed _ (reaches.items_subset (by simp [FilterNode.items]))
    · rw [Reached.isColumn, item, single, isColumn]
      rfl
    · have isPath := reaches.mem_paths addressable found
      rw [← path] at isPath
      exact fun taken => free ((show y.path = settings.rootKeyAlias from taken) ▸ isPath)
    · intro other among b isAttribute property
      generalize y.table = number at leads
      cases leads with
      | root =>
          refine alone ?_ other among b isAttribute property
          rw [← Path.properties_intercalate steps, ← start]
          rfl
      | join _ _ _ _ _ =>
          obtain rfl := List.mem_singleton.mp among
          obtain rfl := List.mem_singleton.mp holder
          exact (plain.registered.built _ isKnown).eq_of_property isAttribute (List.mem_of_find?_eq_some held) property
  · intro part names es n e a reaches found isAssociation
    obtain ⟨reached, isPart, y, member, item, -, rfl, path⟩ := reaches.exists_reached addressable v.joinPlan found
    obtain ⟨x, inside, isPath, offered, shows⟩ := exists_part addressable compiled isPart
    obtain ⟨way, es', e', above, leads, found', place⟩ := shows.leads y member
    obtain ⟨holder, held, -⟩ := resolve?_eq_some found'
    have isKnown := leads.known built e' holder
    obtain ⟨target, -, isTarget, -⟩ :=
      plain.registered.targetOf_association (known isKnown) (List.mem_of_find?_eq_some held) isAssociation
    obtain ⟨j, isEntry, there⟩ := exists_join addressable compiled isPart member isAssociation
    rw [← path]
    cases entry : v.joinPlan.atPath? y.path with
    | none => exact absurd there (by simpa using List.find?_eq_none.mp entry j isEntry)
    | some k =>
        have same : k.path = y.path := by simpa using List.find?_some entry
        have declared := declared_of_resolve addressable leads found' isTarget
        have joins := joins_of_path addressable built leads declared isTarget (List.mem_of_find?_eq_some entry)
          (same.trans place)
        exact ⟨k, rfl, joins.subject⟩

end Compiled

namespace Outline

open Fetch (animal isNamed isNamed_of_all)

def pets (note home : String) : Outline where
  definitions := [animal,
    entity "Kennel" "kennel" [column "id" "id" .bigInt true, column "size" "size" .bigInt false],
    entity "House" "house" [column "id" "id" .bigInt true, column "street" "street" .varchar false],
    kind "Dog" "Animal" "dog" [column "note" "dog_note" .varchar false, column "kennel" "kennel_id" .bigInt false,
      association "home" "Kennel" "kennel" "kennel_id" "id" false],
    kind "Cat" "Animal" "cat" [column note "cat_note" .varchar false, column "house" "house_id" .bigInt false,
      association home "House" "house" "house_id" "id" false]]
  roots := ["Dog", "Cat"]
  chains := [asks "Dog" ["note"], asks "Dog" ["home", "size"], asks "Cat" [note], asks "Cat" [home, "street"]]

/-- The properties have no dots, no other names are given, and nothing is called like the key. -/
def isPlain (registry : Registry) (t : FilterTree) : Bool :=
  decide (∀ e ∈ t.roots, e ∈ registry.all) &&
    decide (∀ e ∈ registry.all, ∀ a ∈ e.attributes, '.' ∉ a.property.toList) &&
    (FilterNode.itemsOfAll t.nodes).all (·.outputName.isNone) && decide ("rootKey" ∉ FilterNode.pathsOfAll "" t.nodes)

theorem isPlain_of_all {o : Outline} {registry : Registry} {t : FilterTree} {v : CompiledView}
    (found : o.compiled? = some (registry, t, v))
    (declared : o.registry = (Registry.ofDefinitions o.definitions).toOption) (checked : isPlain registry t = true) :
    t.IsPlain registry ∧ "rootKey" ∉ FilterNode.pathsOfAll "" t.nodes := by
  simp only [isPlain, Bool.and_eq_true, decide_eq_true_eq, List.all_eq_true, Option.isNone_iff_eq_none] at checked
  obtain ⟨⟨⟨known, plain⟩, unnamed⟩, free⟩ := checked
  exact ⟨⟨Registry.isRegistered_of_definitions (declared_eq found declared), known, plain, unnamed⟩, free⟩

set_option maxRecDepth 100000 in
/-- Notes and homes with names of their own are found. -/
theorem pets_are_told_apart : ∃ registry t v, (pets "mood" "flat").compiled? = some (registry, t, v) ∧
    Setting.IsAddressable ⟨registry, none⟩ t.roots ∧ t.IsPlain registry ∧
    "rootKey" ∉ FilterNode.pathsOfAll "" t.nodes ∧ compile registry {} .sqlite none {} t = .ok v ∧
    v.columns.map (·.label) = ["rootKey", "note", "home.size", "home.id", "kennel", "mood", "flat.street", "flat.id",
      "house", "id", "kind"] ∧
    (∀ e ∈ t.roots, ∀ a ∈ e.attributes, t.HasAlone [] a) ∧ v.FindsOwn registry t := by
  have checked : ((pets "mood" "flat").compiled?.any fun c => isNamed c.1 c.2.1.roots && isPlain c.1 c.2.1 &&
      (c.2.1.roots.all fun e => e.attributes.all fun a => c.2.1.roots.all fun other => other.attributes.all fun b =>
        b.property != a.property || b == a) &&
      c.2.2.columns.map (·.label) == ["rootKey", "note", "home.size", "home.id", "kennel", "mood", "flat.street",
        "flat.id", "house", "id", "kind"]) = true := by
    decide +kernel
  obtain ⟨⟨registry, t, v⟩, found, holds⟩ := (Option.any_eq_true _ _).mp checked
  simp only [Bool.and_eq_true, List.all_eq_true, Bool.or_eq_true, bne_iff_ne, beq_iff_eq] at holds
  obtain ⟨⟨⟨named, plain⟩, alone⟩, labels⟩ := holds
  obtain ⟨-, -, compiled⟩ := compiled_eq found
  have addressable := (isNamed_of_all named).addressable
  obtain ⟨plain, free⟩ := isPlain_of_all found rfl plain
  refine ⟨registry, t, v, found, addressable, plain, free, compiled, labels, ?_,
    attributes_are_told_apart addressable plain free compiled⟩
  exact fun e member a inside _ other among b held same =>
    (alone e member a inside other among b held).resolve_left (absurd same)

set_option maxRecDepth 100000 in
/-- A note of cats is not selected under its path, because that is where the kennels of dogs are which their homes are
joined by. At the path of the homes of cats the plan has those of dogs. -/
theorem pets_are_confused : ∃ registry t v, (pets "kennel" "home").compiled? = some (registry, t, v) ∧
    t.IsPlain registry ∧ "rootKey" ∉ FilterNode.pathsOfAll "" t.nodes ∧
    compile registry {} .sqlite none {} t = .ok v ∧
    (∃ n ∈ t.nodes, ∃ e a, resolve? n.item t.roots = some (e, a) ∧ a.column = some "cat_note" ∧
      n.item.aggregate = none ∧ ∀ x ∈ v.parts, ∀ b ∈ x.columns, b.subject ≠ some a) ∧
    ∃ n ∈ t.nodes, ∃ e a entry, resolve? n.item t.roots = some (e, a) ∧ a.isAssociation = true ∧
      v.joinPlan.atPath? a.property = some entry ∧ entry.subject ≠ a := by
  have checked : ((pets "kennel" "home").compiled?.any fun c => isPlain c.1 c.2.1 &&
      (c.2.1.nodes.any fun n => (resolve? n.item c.2.1.roots).any fun found => found.2.column == some "cat_note" &&
        n.item.aggregate.isNone && decide (∀ x ∈ c.2.2.parts, ∀ b ∈ x.columns, b.subject ≠ some found.2)) &&
      c.2.1.nodes.any fun n => (resolve? n.item c.2.1.roots).any fun found => found.2.isAssociation &&
        (c.2.2.joinPlan.atPath? found.2.property).any fun entry => entry.subject != found.2) = true := by
    decide +kernel
  obtain ⟨⟨registry, t, v⟩, found, holds⟩ := (Option.any_eq_true _ _).mp checked
  simp only [Bool.and_eq_true, List.any_eq_true, Option.any_eq_true, decide_eq_true_eq, bne_iff_ne, beq_iff_eq,
    Option.isNone_iff_eq_none] at holds
  obtain ⟨⟨plain, n, member, ⟨e, a⟩, resolved, ⟨column, single⟩, hidden⟩, m, inside, ⟨other, b⟩, joined, isAssociation,
    entry, isEntry, different⟩ := holds
  obtain ⟨-, -, compiled⟩ := compiled_eq found
  obtain ⟨plain, free⟩ := isPlain_of_all found rfl plain
  exact ⟨registry, t, v, found, plain, free, compiled, ⟨n, member, e, a, resolved, column, single, hidden⟩,
    m, inside, other, b, entry, joined, isAssociation, isEntry, different⟩

end Outline

end ViewEngine
