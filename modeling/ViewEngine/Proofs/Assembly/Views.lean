import ViewEngine.Proofs.Assembly.Arranged
import ViewEngine.Proofs.Assembly.RootKey
import ViewEngine.Proofs.Compilation.Scoping

/-!
The rows of a view, put together from the results of its statements. No element is lost and none is made up: each
list holds the elements of the results that belong there, and all else is as the results for the root rows have it.
-/

namespace ViewEngine

open Compile Row CompiledView

namespace Compile

variable {setting : Setting} {r : Root} {t : FilterTree} {state : State}

theorem primary_reachable (addressable : setting.IsAddressable t.roots) (succeeded : primary setting r t = .ok state) :
    AreReachable setting.registry t.roots (fun outers => outers.length = 0 ∧ AreMade [] outers) state.deferred := by
  unfold primary at succeeded
  dsimp only at succeeded
  obtain ⟨walked, walks, succeeded⟩ := bind_eq_ok.mp succeeded
  cases succeeded
  have outermost {s : Scope} (same : s.enclosing = (r.start []).enclosing) : s.enclosing = [] :=
    same.trans Scope.project_enclosing
  have begins {s : Scope} (same : s.enclosing = [])
      (walks : walk setting t.roots 0 "" t.nodes ⟨s, {}, 1, []⟩ = .ok walked) :
      AreReachable setting.registry t.roots (fun outers => outers.length = 0 ∧ AreMade [] outers) walked.deferred := by
    have none : (s.enclosing.map (·.describe)) = [] := by
      rw [same]
      rfl
    have along : Along setting.registry t.roots [] t.roots (s.enclosing.map (·.describe)) := by
      rw [none]
      exact .root
    have within : (s.enclosing.map (·.describe)).length = 0 ∧ AreMade [] (s.enclosing.map (·.describe)) := by
      rw [none]
      exact ⟨rfl, by simp [AreMade]⟩
    exact (walk_putsDown addressable t.nodes along rfl within walks).deferred ⟨List.nodup_nil, by simp⟩
  refine begins ?_ walks
  split
  · exact outermost projectColumns_enclosing
  · exact outermost rfl

end Compile

variable {registry : Registry} {settings : ViewSettings} {dialect : Sql.Dialect} {pointInTime : Option Timestamp}
  {page : Page} {t : FilterTree} {v : CompiledView}

theorem compile_served (addressable : Setting.IsAddressable ⟨registry, pointInTime⟩ t.roots)
    (compiled : compile registry settings dialect pointInTime page t = .ok v) :
    AreServed registry t.roots [] 0 v.subSelects := by
  obtain ⟨state, walked, compiled⟩ := bind_eq_ok.mp compiled
  obtain ⟨⟨found, plan⟩, collections, compiled⟩ := bind_eq_ok.mp compiled
  cases compiled
  exact rounds_served addressable (primary_reachable addressable walked) collections

namespace CompiledView

/-- The results for a collection that belong to a root row and stand in the elements at some positions. -/
def resultsAt (v : CompiledView) (s : SubSelect) (places : List Nat) (row : RootRow) (results : List Row) : List Row :=
  results.filter fun result => v.resultKey result == row.keyText &&
    standing? (v.carrier s result) "" s.enclosing row.fields == some places

def elementsOf (v : CompiledView) (s : SubSelect) (results : List Row) : List Value :=
  results.filterMap fun result => v.element? s (v.carrier s result)

/-- A row is what a result for the root rows makes of it, with the elements that belong to it. -/
structure IsAssembled (v : CompiledView) (collections : List (SubSelect × List Row)) (result : Row) (row : RootRow) :
    Prop where
  key : row.keyText = (result.read v.rootKeyAlias).collapse.toText
  rest : startAll v.rootPlaces row.fields = startAll v.rootPlaces (v.rootFields result)
  outermost : ∀ s results, (s, results) ∈ collections → s.enclosing = [] → ∀ held,
    (v.rootFields result).slot? (propertiesOf s.path) = some held →
    ∃ items, row.fields.slot? (propertiesOf s.path) = some (some (.list items)) ∧
      items.map (v.emptied s) = v.elementsOf s (results.filter fun r => v.resultKey r == row.keyText)
  nested : ∀ s results, (s, results) ∈ collections → ∀ places held,
    slotAt? s.path "" s.enclosing places row.fields = some held → ∃ items, held = some (.list items) ∧
      items.map (v.emptied s) = v.elementsOf s (v.resultsAt s places row results)

variable {collections : List (SubSelect × List Row)} {s : SubSelect} {results : List Row} {keyText : String}
  {fields result : Row} {places : List Nat}

theorem elements_standsAt (paths : (collections.map (·.1.path)).Nodup) (member : (s, results) ∈ collections)
    (sameKey : ∀ result, v.keyText (Row.ofColumns s.columns result) = v.resultKey result) :
    v.elements ((v.deliveries keyText collections).filter (v.standsAt s places fields)) =
      v.elementsOf s (v.resultsAt s places ⟨keyText, fields⟩ results) := by
  have split : (v.deliveries keyText collections).filter (v.standsAt s places fields) =
      ((v.deliveries keyText collections).filter (·.1.path == s.path)).filter fun d =>
        standing? (v.carrier d.1 d.2) "" s.enclosing fields == some places := by
    rw [List.filter_filter]
    exact List.filter_congr fun d _ => Bool.and_comm ..
  have keyed : v.resultsFor s keyText results = results.filter (v.resultKey · == keyText) :=
    List.filter_congr fun result _ => by rw [sameKey]
  rw [split, deliveries_filter paths member, List.filter_map, elements, List.filterMap_map, keyed, List.filter_filter,
    elementsOf, resultsAt]
  exact congrArg _ (List.filter_congr fun result _ => Bool.and_comm ..)

theorem HasTaken.isAssembled (arranged : v.IsArranged) (each : collections.map Prod.fst = v.subSelects)
    (sameKey : ∀ s ∈ v.subSelects, ∀ result, v.keyText (Row.ofColumns s.columns result) = v.resultKey result)
    (key : keyText = (result.read v.rootKeyAlias).collapse.toText)
    (hasTaken : v.HasTaken (startAll v.rootPlaces (v.rootFields result)) (v.deliveries keyText collections) fields) :
    v.IsAssembled collections result ⟨keyText, fields⟩ := by
  have paths : (collections.map (·.1.path)).Nodup := by
    have distinct := arranged.distinct
    rwa [← each, List.map_map] at distinct
  have known {s : SubSelect} {results : List Row} (member : (s, results) ∈ collections) : s ∈ v.subSelects :=
    each ▸ List.mem_map_of_mem (f := Prod.fst) member
  have nested : ∀ s results, (s, results) ∈ collections → ∀ places held,
      slotAt? s.path "" s.enclosing places fields = some held → ∃ items, held = some (.list items) ∧
        items.map (v.emptied s) = v.elementsOf s (v.resultsAt s places ⟨keyText, fields⟩ results) := by
    intro s results member places held stands
    rw [← elements_standsAt paths member (sameKey s (known member))]
    exact hasTaken.lists s (known member) places held stands
  refine ⟨key, hasTaken.rest, fun s results member outermost held slot => ?_, nested⟩
  have isPlace : propertiesOf s.path ∈ v.rootPlaces :=
    List.mem_map.mpr ⟨s, List.mem_filter.mpr ⟨known member, by rw [outermost]; rfl⟩, rfl⟩
  have started := slot?_startAll arranged.rootApart isPlace fields
  rw [hasTaken.rest, slot?_startAll arranged.rootApart isPlace, slot, Option.map_some] at started
  obtain ⟨now, stands, -⟩ := Option.map_eq_some_iff.mp started.symm
  obtain ⟨items, rfl, same⟩ := nested s results member [] now (by rw [outermost]; exact stands)
  refine ⟨items, stands, same.trans (congrArg _ (List.filter_congr fun r _ => ?_))⟩
  rw [outermost]
  exact Bool.and_true _

end CompiledView

/-- The rows of a view are put together from its results, with every element where it belongs and no others. -/
theorem merge_keeps_elements (isKeyed : Setting.IsKeyed ⟨registry, pointInTime⟩ t.roots)
    (compiled : compile registry settings dialect pointInTime page t = .ok v) (ownKey : v.HasOwnKey)
    {primary : List Row} (distinct : ((v.rootRows primary).map (·.keyText)).Nodup)
    {collections : List (SubSelect × List Row)} (each : collections.map Prod.fst = v.subSelects) :
    List.Forall₂ (v.IsAssembled collections) primary (v.merge (v.rootRows primary) collections) := by
  have arranged : v.IsArranged := isArranged_of_served isKeyed (compile_served isKeyed.addressable compiled)
  obtain ⟨primaryKey, selectsKey⟩ := compile_selectsKey isKeyed.addressable compiled
  rw [merge_eq_map distinct, rootRows_eq, List.map_map, List.forall₂_map_right_iff, List.forall₂_same]
  intro result _
  refine HasTaken.isAssembled arranged each ?_ (ownKey.keyText_start primaryKey result)
    ((hasTaken_nothing arranged (v.rootFields result)).received arranged (deliveries_ordered arranged each _))
  exact fun s member result => ownKey.keyText_eq member (selectsKey s member) result

namespace CompiledView

instance (v : CompiledView) : Decidable v.HasOwnLabel :=
  decidable_of_iff ('.' ∉ v.rootKeyAlias.toList ∧ ∀ b ∈ v.columns ++ v.subSelects.flatMap (·.columns),
      b.kind ≠ .rootKey → (propertiesOf b.label).head? ≠ some v.rootKeyAlias)
    ⟨fun ⟨plain, columns⟩ => ⟨plain, fun b selects => columns b (by simpa [Selects] using selects)⟩,
      fun own => ⟨own.plain, fun b member => own.columns b (by simpa [Selects] using member)⟩⟩

instance (v : CompiledView) : Decidable v.HasOwnKey :=
  decidable_of_iff (v.HasOwnLabel ∧ ∀ s ∈ v.subSelects, (propertiesOf s.path).head? ≠ some v.rootKeyAlias)
    ⟨fun ⟨label, collections⟩ => ⟨label, collections⟩, fun own => ⟨own.toHasOwnLabel, own.collections⟩⟩

def carriedOuters (s : SubSelect) (carrier : Row) : List EnclosingCollection :=
  s.enclosing.map fun outer => { outer with keys := outer.keys.filter fun key =>
    ((carrier.valueAt? (propertiesOf outer.path)).bind Value.asRow?).any fun identity =>
      (identity.valueAt? (propertiesOf key)).isSome }

/-- A result stands in elements of the root row with its key, but there is no list with elements there. -/
def loses (v : CompiledView) (s : SubSelect) (first : Row) (row : RootRow) (result : Row) : Bool :=
  v.resultKey result == v.resultKey first && (v.element? s (v.carrier s result)).isSome &&
    (standing? (v.carrier s result) "" (carriedOuters s (v.carrier s result)) row.fields).any fun places =>
      (((slotAt? s.path "" s.enclosing places row.fields).join.bind Value.asList?).getD []).isEmpty

end CompiledView

structure FilledOutline extends Outline where
  primary : List Row
  collections : List (List Row)

namespace FilledOutline

open Outline (column entity association asks compiled_eq areAgreed_of_isEmpty)

def given (o : FilledOutline) (v : CompiledView) : List (SubSelect × List Row) :=
  v.subSelects.zip o.collections

def merged (o : FilledOutline) (v : CompiledView) : List RootRow :=
  v.merge (v.rootRows o.primary) (o.given v)

def isComplete (o : FilledOutline) (v : CompiledView) : Bool :=
  decide ((v.rootRows o.primary).map (·.keyText)).Nodup && v.subSelects.length == o.collections.length

theorem of_isComplete {o : FilledOutline} {v : CompiledView} (complete : o.isComplete v = true) :
    ((v.rootRows o.primary).map (·.keyText)).Nodup ∧ (o.given v).map Prod.fst = v.subSelects := by
  obtain ⟨distinct, each⟩ := Bool.and_eq_true_iff.mp complete
  exact ⟨of_decide_eq_true distinct, List.map_fst_zip (Nat.le_of_eq (beq_iff_eq.mp each))⟩

def orders : FilledOutline where
  definitions := [
    entity "Order" "orders" [column "id" "id" .bigInt true, association "lines" "Line" "line" "id" "order_id" true],
    entity "Line" "line" [column "id" "id" .bigInt true, column "order" "order_id" .bigInt false,
      column "article" "article_id" .bigInt false, association "product" "Product" "product" "article_id" "id" false],
    entity "Product" "product" [column "id" "id" .bigInt true, column "name" "name" .varchar false,
      association "parts" "Part" "part" "id" "product_id" true],
    entity "Part" "part" [column "id" "id" .bigInt true, column "product" "product_id" .bigInt false]]
  roots := ["Order"]
  chains := [asks "Order" ["lines", "product", "name"], asks "Order" ["lines", "product", "parts", "id"]]
  primary := [[("rootKey", .int 1)], [("rootKey", .int 2)]]
  collections := [
    [[("rootKey", .int 2), ("lines.id", .int 5), ("lines.product.id", .int 7)], [("rootKey", .int 2), ("lines.id", .int 6)]],
    [[("rootKey", .int 2), ("lines.id", .int 5), ("lines.product.parts.id", .int 8)],
      [("rootKey", .int 2), ("lines.id", .int 5), ("lines.product.parts.id", .int 9)]]]

def sizes (o : FilledOutline) (v : CompiledView) : List (List Nat) :=
  v.subSelects.map fun s => (o.merged v).map fun row =>
    (((slotAt? s.path "" s.enclosing (s.enclosing.map fun _ => 0) row.fields).join.bind Value.asList?).getD []).length

set_option maxRecDepth 100000 in
/-- Lines and parts are put into the orders that they belong to. -/
theorem orders_are_assembled : ∃ registry t v, orders.compiled? = some (registry, t, v) ∧
    Setting.IsKeyed ⟨registry, none⟩ t.roots ∧ v.HasOwnKey ∧ ((v.rootRows orders.primary).map (·.keyText)).Nodup ∧
    (orders.given v).map Prod.fst = v.subSelects ∧ orders.sizes v = [[0, 2], [0, 2]] ∧
    List.Forall₂ (v.IsAssembled (orders.given v)) orders.primary (orders.merged v) := by
  have checked : (orders.compiled?.map fun found =>
      found.2.1.otherRoots.isEmpty && orders.isComplete found.2.2 && decide found.2.2.HasOwnKey &&
      decide (∀ e ∈ found.2.1.roots ++ found.1.all, ∀ a ∈ e.attributes, a.isAssociation = true → IsStep a.property) &&
      decide (∀ e ∈ found.1.all, ∀ key ∈ e.elementKeys, '.' ∉ key.toList ∧
        ∀ a ∈ e.attributes, a.isAssociation = true → a.property ≠ key) &&
      orders.sizes found.2.2 == [[0, 2], [0, 2]]) = some true := by
    decide +kernel
  obtain ⟨⟨registry, t, v⟩, found, checked⟩ := Option.map_eq_some_iff.mp checked
  simp only [Bool.and_eq_true, decide_eq_true_eq, beq_iff_eq] at checked
  obtain ⟨⟨⟨⟨⟨single, complete⟩, ownKey⟩, steps⟩, keys⟩, sizes⟩ := checked
  obtain ⟨distinct, each⟩ := of_isComplete complete
  obtain ⟨-, -, compiled⟩ := compiled_eq found
  have isKeyed : Setting.IsKeyed ⟨registry, none⟩ t.roots := ⟨⟨steps, areAgreed_of_isEmpty single⟩, keys⟩
  exact ⟨registry, t, v, found, isKeyed, ownKey, distinct, each, sizes,
    merge_keeps_elements isKeyed compiled ownKey distinct each⟩

def withheld : FilledOutline :=
  { orders with collections := orders.collections.map fun results => results.map fun result => result.erase "lines.product.id" }

def dottedKey : FilledOutline where
  definitions := [
    entity "Order" "orders" [column "id" "id" .bigInt true, association "lines" "Line" "line" "id" "order_id" true],
    entity "Line" "line" [column "line.no" "no" .bigInt true, column "order" "order_id" .bigInt false,
      association "parts" "Part" "part" "no" "line_no" true],
    entity "Part" "part" [column "id" "id" .bigInt true, column "line" "line_no" .bigInt false]]
  roots := ["Order"]
  chains := [asks "Order" ["lines", "line.no"], asks "Order" ["lines", "parts", "id"]]
  primary := [[("rootKey", .int 1)]]
  collections := [[[("rootKey", .int 1), ("lines.line.no", .int 5)], [("rootKey", .int 1), ("lines.line.no", .int 6)]],
    [[("rootKey", .int 1), ("lines.line.no", .int 6), ("lines.parts.id", .int 9)]]]

def associatedKey : FilledOutline where
  definitions := [
    entity "Order" "orders" [column "id" "id" .bigInt true, association "lines" "Line" "line" "id" "order_id" true],
    entity "Line" "line" [column "id" "id" .bigInt true, column "order" "order_id" .bigInt false,
      column "holder" "owner_id" .bigInt false,
      { association "owner" "Owner" "owner" "owner_id" "id" false with primaryKey := true },
      association "parts" "Part" "part" "id" "line_id" true],
    entity "Owner" "owner" [column "id" "id" .bigInt true, column "name" "name" .varchar false],
    entity "Part" "part" [column "id" "id" .bigInt true, column "line" "line_id" .bigInt false]]
  roots := ["Order"]
  chains := [asks "Order" ["lines", "owner", "name"], asks "Order" ["lines", "parts", "id"]]
  primary := [[("rootKey", .int 1)]]
  collections := [[[("rootKey", .int 1), ("lines.id", .int 5), ("lines.owner.id", .int 8)]],
    [[("rootKey", .int 1), ("lines.id", .int 5), ("lines.parts.id", .int 9)]]]

def dottedName : FilledOutline where
  definitions := [
    entity "Order" "orders" [column "id" "id" .bigInt true, association "old.lines" "Line" "line" "id" "order_id" true],
    entity "Line" "line" [column "id" "id" .bigInt true, column "order" "order_id" .bigInt false]]
  roots := ["Order"]
  chains := [asks "Order" ["old.lines", "id"]]
  primary := [[("rootKey", .int 1)]]
  collections := [[[("rootKey", .int 1), ("old.lines.id", .int 5)]]]

/-- An associated row at the place of a collection, because the property above it has no name. -/
def nameless : FilledOutline where
  definitions := [
    entity "Order" "orders" [column "id" "id" .bigInt true, column "payer" "payer_id" .bigInt false,
      association "" "Customer" "customer" "payer_id" "id" false,
      association "lines" "Line" "line" "id" "order_id" true],
    entity "Line" "line" [column "id" "id" .bigInt true, column "order" "order_id" .bigInt false],
    entity "Customer" "customer" [column "id" "id" .bigInt true,
      association "lines" "Address" "address" "id" "customer_id" false],
    entity "Address" "address" [column "id" "id" .bigInt true, column "customer" "customer_id" .bigInt false,
      association "parts" "Part" "part" "id" "address_id" true],
    entity "Part" "part" [column "id" "id" .bigInt true, column "address" "address_id" .bigInt false]]
  roots := ["Order"]
  chains := [asks "Order" ["", "lines", "parts", "id"], asks "Order" ["lines", "id"]]
  primary := [[("rootKey", .int 1), ("lines.id", .int 3)]]
  collections := [[[("rootKey", .int 1), ("lines.parts.id", .int 9)]], []]

def tags : List EntityDefinition := [
  entity "Order" "orders" [column "id" "id" .bigInt true, association "rootKey" "Tag" "tag" "id" "order_id" true,
    association "lines" "Line" "line" "id" "order_id" true],
  entity "Tag" "tag" [{ association "owner" "Line" "line" "owner_id" "id" false with primaryKey := true }],
  entity "Line" "line" [column "id" "id" .bigInt true, column "order" "order_id" .bigInt false]]

/-- A collection at the place of the key. Its elements are associated by columns that nothing declares. -/
def shadowed : FilledOutline where
  definitions := tags
  registry := (Registry.addAll tags.length {} tags).toOption
  roots := ["Order"]
  chains := [asks "Order" ["rootKey"], asks "Order" ["lines", "id"]]
  primary := [[("rootKey", .int 1)]]
  collections := [[], [[("rootKey", .int 1), ("lines.id", .int 5)]]]

def LosesElements (o : FilledOutline) : Prop :=
  ∃ registry t v, o.compiled? = some (registry, t, v) ∧ t.otherRoots = [] ∧ v.HasOwnLabel ∧
    ((v.rootRows o.primary).map (·.keyText)).Nodup ∧ (o.given v).map Prod.fst = v.subSelects ∧
    ∃ c ∈ o.given v, ∃ result ∈ c.2, ∃ row ∈ o.primary.zip (o.merged v), v.loses c.1 row.1 row.2 result = true

theorem losesElements_of_any {o : FilledOutline} (checked : (o.compiled?.any fun (_, t, v) =>
      t.otherRoots.isEmpty && decide v.HasOwnLabel && o.isComplete v && (o.given v).any fun c =>
        c.2.any fun result => (o.primary.zip (o.merged v)).any fun row => v.loses c.1 row.1 row.2 result) = true) :
    o.LosesElements := by
  obtain ⟨⟨registry, t, v⟩, found, checked⟩ := (Option.any_eq_true _ _).mp checked
  simp only [Bool.and_eq_true, decide_eq_true_eq, List.any_eq_true] at checked
  obtain ⟨⟨⟨single, label⟩, complete⟩, c, inside, result, given, row, member, lost⟩ := checked
  obtain ⟨distinct, each⟩ := of_isComplete complete
  exact ⟨registry, t, v, found, List.isEmpty_iff.mp single, label, distinct, each, c, inside, result, given, row,
    member, lost⟩

set_option maxRecDepth 100000 in
/-- Elements are lost where the row that would hold them is null, and where paths or keys are no single properties. -/
theorem elements_are_lost : withheld.LosesElements ∧ dottedKey.LosesElements ∧ associatedKey.LosesElements ∧
    dottedName.LosesElements ∧ nameless.LosesElements ∧ shadowed.LosesElements := by
  refine ⟨losesElements_of_any ?_, losesElements_of_any ?_, losesElements_of_any ?_, losesElements_of_any ?_,
    losesElements_of_any ?_, losesElements_of_any ?_⟩
  all_goals decide +kernel

end FilledOutline

end ViewEngine
