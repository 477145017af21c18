import ViewEngine.Proofs.Assembly.Readable
import ViewEngine.Proofs.Assembly.Views
import ViewEngine.Proofs.Selection.Statements

/-!
What becomes of the columns that are fetched. Their values are found in the rows of the view, as long as their labels
do not lead through one another or through a collection, and those for elements lead into these.
-/

namespace ViewEngine

open Compile Row CompiledView

/-- A column that some node asks for in a part. -/
inductive FilterTree.Asks (registry : Registry) (t : FilterTree) (part : String) : ColumnBinding → Prop
  | column {names : List String} {es : List Entity} {n : FilterNode} {e : Entity} {a : Attribute}
      (reaches : t.Reaches registry part names es n) (found : resolve? n.item es = some (e, a))
      (single : n.item.aggregate = none) (stored : a.isAssociation = false ∧ a.column.isSome = true) :
      Asks registry t part ⟨n.item.outputName.getD (".".intercalate (names ++ [a.property])), some a, .value⟩
  | count {names : List String} {es : List Entity} {n : FilterNode} {e : Entity} {a : Attribute}
      (reaches : t.Reaches registry part names es n) (found : resolve? n.item es = some (e, a))
      (counted : n.item.aggregate.isSome = true) : Asks registry t part
        ⟨n.item.outputName.getD (".".intercalate (names ++ [a.property])), none, .aggregate⟩

namespace CompiledView

/-- A column that a statement has of its own: the key of the root rows, or one that rows are known or joined by. -/
def Adds (v : CompiledView) (t : FilterTree) (b : ColumnBinding) : Prop :=
  b = ⟨v.rootKeyAlias, none, .rootKey⟩ ∨ ∃ p : Projection, p.IsOwn v.joinPlan t.roots ∧ p.binding = b

def mergedAt (v : CompiledView) (s : SubSelect) (places : List Nat) (row : RootRow) (results : List Row) : List Row :=
  (v.resultsAt s places row results).filter fun result => (v.element? s (v.carrier s result)).isSome

end CompiledView

/-- The value of a column in a result. One that is a row itself is collapsed, as associated rows are. -/
def ColumnBinding.valueIn (b : ColumnBinding) (result : Row) : Value :=
  (b.coerce (result.read b.label)).collapse

def CompiledView.ElementDelivers (v : CompiledView) (s : SubSelect) (result : Row) (element : Value) : Prop :=
  ∀ b ∈ s.columns, b.kind ≠ .rootKey → b.IsApart s.columns → ∀ below,
    propertiesOf b.label = propertiesOf s.path ++ below → below ≠ [] → (∀ q ∈ v.innerPlaces s, Apart below q) →
      ∃ fields : Row, element = .row fields ∧ fields.Delivers (b.valueIn result) below

/-- A root row has the values of its columns, and the elements in it have theirs. -/
structure CompiledView.RowDelivers (v : CompiledView) (collections : List (SubSelect × List Row)) (result : Row)
    (row : RootRow) : Prop where
  fields : ∀ b ∈ v.columns, b.IsApart v.columns → (∀ q ∈ v.rootPlaces, Apart (propertiesOf b.label) q) →
    row.fields.Delivers (b.valueIn result) (propertiesOf b.label)
  elements : ∀ s results, (s, results) ∈ collections → ∀ places held,
    slotAt? s.path "" s.enclosing places row.fields = some held → ∃ items, held = some (.list items) ∧
      List.Forall₂ (v.ElementDelivers s) (v.mergedAt s places row results) items

/-- What nodes ask for is selected by the parts that they belong to, unless these select a column of their own under
the same label. -/
def CompiledView.SelectsAsked (v : CompiledView) (registry : Registry) (t : FilterTree) : Prop :=
  ∀ part b, t.Asks registry part b → (∀ c, t.Asks registry part c → c.label = b.label → c = b) →
    ∃ x ∈ v.parts, x.path = part ∧ (b ∈ x.columns ∨ ∃ c ∈ x.columns, c.label = b.label ∧ v.Adds t c)

theorem forall₂_of_map_eq {α β γ : Type} {f : α → γ} {g : β → Option γ} {items : List α} {others : List β}
    (same : items.map f = others.filterMap g) :
    List.Forall₂ (fun other item => g other = some (f item)) (others.filter fun other => (g other).isSome) items := by
  induction others generalizing items with
  | nil =>
      rw [List.map_eq_nil_iff.mp same]
      exact .nil
  | cons other rest ih =>
      cases found : g other with
      | none =>
          rw [List.filterMap_cons_none found] at same
          rw [List.filter_cons_of_neg (by simp [found])]
          exact ih same
      | some value =>
          rw [List.filterMap_cons_some found] at same
          obtain ⟨item, more, rfl, rfl, further⟩ := List.map_eq_cons_iff.mp same
          rw [List.filter_cons_of_pos (by simp [found])]
          exact .cons found (ih further)

namespace CompiledView

variable {v : CompiledView} {s : SubSelect} {b : ColumnBinding} {result : Row} {element : Value} {below : List String}

theorem element?_delivers (ownKey : v.HasOwnKey) (member : s ∈ v.subSelects)
    (found : v.element? s (v.carrier s result) = some element) (inside : b ∈ s.columns) (value : b.kind ≠ .rootKey)
    (apart : b.IsApart s.columns) (within : propertiesOf b.label = propertiesOf s.path ++ below) (deeper : below ≠ []) :
    ∃ fields : Row, element = .row (startAll (v.innerPlaces s) fields) ∧ fields.Delivers (b.valueIn result) below := by
  have label := ownKey.columns b (.inr ⟨s, member, inside⟩) value
  have read : (v.carrier s result).valueAt? (propertiesOf b.label) = some (b.coerce (result.read b.label)) := by
    rw [carrier, valueAt?_erase label, valueAt?_ofColumns inside apart]
  rw [within] at read
  obtain ⟨fields, isHeld, read⟩ := (valueAt?_append_eq_some (propertiesOf_ne_nil _) deeper).mp read
  refine ⟨Value.collapseFields fields, ?_, delivers_collapse read⟩
  rw [element?, isHeld, Option.map_some, Value.collapse] at found
  by_cases null : Value.allNullFields (Value.collapseFields fields) = true
  · rw [if_pos null] at found
    contradiction
  · rw [if_neg null] at found
    rw [← Option.some.inj found, startAll, innerPlaces, List.foldl_map]

theorem elementDelivers_of_emptied (ownKey : v.HasOwnKey) (member : s ∈ v.subSelects) {item : Value}
    (found : v.element? s (v.carrier s result) = some (v.emptied s item)) : v.ElementDelivers s result item := by
  intro b inside value apart below within deeper outside
  obtain ⟨fields, isRow, delivers⟩ := element?_delivers ownKey member found inside value apart within deeper
  cases item with
  | row held => exact ⟨held, rfl, delivers.of_startAll (Value.row.inj isRow).symm outside⟩
  | _ => contradiction

theorem IsAssembled.delivers {collections : List (SubSelect × List Row)} {row : RootRow} (ownKey : v.HasOwnKey)
    (each : collections.map Prod.fst = v.subSelects) (assembled : v.IsAssembled collections result row) :
    v.RowDelivers collections result row where
  fields b member apart outside :=
    (delivers_collapse (valueAt?_ofColumns member apart result)).of_startAll assembled.rest.symm outside
  elements s results given places held stands := by
    obtain ⟨items, isList, same⟩ := assembled.nested s results given places held stands
    have member : s ∈ v.subSelects := each ▸ List.mem_map_of_mem given (f := Prod.fst)
    exact ⟨items, isList, (forall₂_of_map_eq same).imp fun _ _ found => elementDelivers_of_emptied ownKey member found⟩

end CompiledView

variable {registry : Registry} {settings : ViewSettings} {dialect : Sql.Dialect} {pointInTime : Option Timestamp}
  {page : Page} {t : FilterTree} {v : CompiledView} {part : String} {reached : List Reached} {x : Part}
  {b : ColumnBinding}

theorem FilterTree.Asks.exists_offered (asks : t.Asks registry part b)
    (addressable : Setting.IsAddressable ⟨registry, pointInTime⟩ t.roots)
    (compiled : compile registry settings dialect pointInTime page t = .ok v) :
    ∃ reached, IsReachedIn registry v.joinPlan t part reached ∧ ∃ x ∈ v.parts, x.path = part ∧ ∃ offered,
      x.Shows registry v.joinPlan t.roots (Root.ofTree settings t).keyColumn reached offered ∧
        ∃ p ∈ offered, p.binding = b := by
  cases asks with
  | column reaches found single stored =>
      obtain ⟨reached, isPart, y, member, item, -, rfl, path⟩ := reaches.exists_reached addressable v.joinPlan found
      obtain ⟨x, inside, isPath, offered, shows⟩ := exists_part addressable compiled isPart
      obtain ⟨column, isStored⟩ := Option.isSome_iff_exists.mp stored.2
      have isColumn : y.isColumn = true := by
        rw [Reached.isColumn, item, single, stored.1]
        rfl
      refine ⟨reached, isPart, x, inside, isPath, offered, shows, _, shows.column y member isColumn column isStored, ?_⟩
      rw [Reached.alias, item, path]
  | count reaches found counted =>
      obtain ⟨reached, isPart, y, member, item, -, rfl, path⟩ := reaches.exists_reached addressable v.joinPlan found
      obtain ⟨x, inside, isPath, offered, shows⟩ := exists_part addressable compiled isPart
      obtain ⟨expr, isOffered⟩ := shows.count y member (item ▸ counted)
      refine ⟨reached, isPart, x, inside, isPath, offered, shows, _, isOffered, ?_⟩
      rw [Reached.alias, item, path]

theorem Compile.IsReachedIn.asks (addressable : Setting.IsAddressable ⟨registry, pointInTime⟩ t.roots)
    (isPart : IsReachedIn registry v.joinPlan t part reached) {y : Reached} (member : y ∈ reached) {p : Projection}
    (asks : y.Asks p) : t.Asks registry part p.binding := by
  obtain ⟨names, es, e, reaches, found, path⟩ := isPart.reaches addressable member
  cases asks with
  | column isColumn stored =>
      rw [Reached.isColumn, Bool.and_eq_true, Option.isNone_iff_eq_none, Bool.not_eq_true'] at isColumn
      have asked := FilterTree.Asks.column reaches found isColumn.1 ⟨isColumn.2, by rw [stored]; rfl⟩
      rwa [← path] at asked
  | count counted expr =>
      have asked := FilterTree.Asks.count reaches found counted
      rwa [← path] at asked

/-- The part of a node has a column under the label that the node asks for. It is that of the node, or one of the part's
own. -/
theorem compile_selectsAsked (addressable : Setting.IsAddressable ⟨registry, pointInTime⟩ t.roots)
    (compiled : compile registry settings dialect pointInTime page t = .ok v) : v.SelectsAsked registry t := by
  intro part b asks alone
  obtain ⟨reached, isPart, x, inside, isPath, offered, shows, p, isOffered, rfl⟩ :=
    asks.exists_offered addressable compiled
  obtain ⟨q, selected, label⟩ := exists_putColumns [(Root.ofTree settings t).keyColumn] isOffered
  have isColumn : q.binding ∈ x.columns := by
    rw [shows.aligned.columns, shows.columns]
    exact List.mem_map_of_mem selected
  refine ⟨x, inside, isPath, ?_⟩
  rcases mem_putColumns selected with isKey | isOffer
  · refine .inr ⟨_, isColumn, label, .inl ?_⟩
    rw [List.mem_singleton.mp isKey, compile_rootKeyAlias compiled]
    rfl
  · rcases shows.cases q isOffer with ⟨y, member, asks⟩ | own
    · exact .inl (alone _ (isPart.asks addressable member asks) label ▸ isColumn)
    · exact .inr ⟨_, isColumn, label, .inr ⟨q, own, rfl⟩⟩

/-- Every column that is asked for is selected where no other one has its label, and the values that are fetched for it
are found in the rows of the view where its label is apart from the others. -/
theorem fetched_columns_are_delivered (isKeyed : Setting.IsKeyed ⟨registry, pointInTime⟩ t.roots)
    (compiled : compile registry settings dialect pointInTime page t = .ok v) (ownKey : v.HasOwnKey)
    {primary : List Row} (distinct : ((v.rootRows primary).map (·.keyText)).Nodup)
    {collections : List (SubSelect × List Row)} (each : collections.map Prod.fst = v.subSelects) :
    v.SelectsAsked registry t ∧
      List.Forall₂ (v.RowDelivers collections) primary (v.merge (v.rootRows primary) collections) := by
  refine ⟨compile_selectsAsked isKeyed.addressable compiled, ?_⟩
  exact (merge_keeps_elements isKeyed compiled ownKey distinct each).imp fun _ _ assembled =>
    assembled.delivers ownKey each

/-- A collection that is asked for, and no node of the tree stands on its elements. -/
structure FilterTree.AsksWhole (registry : Registry) (t : FilterTree) (path : String) (a : Attribute)
    (target : Entity) :
    Prop where
  asked : ∃ part names es n e, t.Reaches registry part names es n ∧ n.item.aggregate = none ∧
    resolve? n.item es = some (e, a) ∧ path = ".".intercalate (names ++ [a.property]) ∧
    ∀ m, ¬ t.Reaches registry path (names ++ [a.property]) [target] m
  collection : a.isCollection = true
  leads : registry.targetOf a = .ok target

theorem FilterTree.AsksWhole.exists_collected {path : String} {a : Attribute} {target : Entity}
    (asks : t.AsksWhole registry path a target) (addressable : Setting.IsAddressable ⟨registry, pointInTime⟩ t.roots)
    (plan : JoinPlan) :
    path ≠ "" ∧ ∃ c ∈ collectedFrom registry plan t, c.path = path ∧ c.subject = a ∧ c.nodes = [] := by
  obtain ⟨part, names, es, n, e, reaches, plain, found, rfl, alone⟩ := asks.asked
  have isAssociation := Attribute.isAssociation_of_isCollection asks.collection
  have filled : ".".intercalate (names ++ [a.property]) ≠ "" := by
    obtain ⟨steps, _, along⟩ := reaches.along addressable
    obtain ⟨member, held, -⟩ := resolve?_eq_some found
    rw [Path.intercalate_concat fun name inside => (steps name inside).1]
    exact Path.child_ne_empty
      (addressable.steps e (along.known e member) a (List.mem_of_find?_eq_some held) isAssociation)
  have isCollected : ".".intercalate (names ++ [a.property]) ∈ (collectedFrom registry plan t).map (·.path) :=
    (mem_collectedFrom_iff addressable).mpr ⟨part, names, es, n, e, a, reaches, plain, found, asks.collection, rfl⟩
  obtain ⟨c, member, path⟩ := List.mem_map.mp isCollected
  obtain ⟨_, _, _, _, _, again, -, found', collection, path', nodes⟩ :=
    (isAsked_of_collectedFrom addressable c member).asked
  obtain ⟨rfl, rfl⟩ := reaches.eq_of_path addressable again found found' isAssociation
    (Attribute.isAssociation_of_isCollection collection) (path.symm.trans path')
  refine ⟨filled, c, member, path, rfl, List.eq_nil_iff_forall_not_mem.mpr fun m below => alone m ?_⟩
  exact path ▸ nodes target asks.leads m below

theorem childless_collections_are_whole (isKeyed : Setting.IsKeyed ⟨registry, pointInTime⟩ t.roots)
    (compiled : compile registry settings dialect pointInTime page t = .ok v) (ownKey : v.HasOwnKey) {path : String}
    {a : Attribute} {target : Entity} (asks : t.AsksWhole registry path a target) :
    ∃ s ∈ v.subSelects, s.path = path ∧ ∀ p ∈ target.scalars, p.column.isSome = true → IsStep p.property →
      ∃ b ∈ s.columns, b.label = Path.child path p.property ∧
        (b.IsApart s.columns → (∀ q ∈ v.innerPlaces s, Apart [p.property] q) →
          ∀ result element, v.ElementDelivers s result element →
            ∃ fields : Row, element = .row fields ∧ fields.Delivers (b.valueIn result) [p.property]) := by
  obtain ⟨filled, c, member, rfl, rfl, none⟩ := asks.exists_collected isKeyed.addressable v.joinPlan
  obtain ⟨s, inside, selects⟩ := exists_of_mem_left (compile_selects isKeyed.addressable compiled).2.flip member
  refine ⟨s, inside, selects.path, fun p scalar stored isStep => ?_⟩
  obtain ⟨b, selected, label⟩ := selects.exists_scalar none asks.leads scalar stored
  have split {path : String} (filled : path ≠ "") : Path.properties path = propertiesOf path :=
    if_neg fun empty => filled (String.isEmpty_iff.mp empty)
  have within : propertiesOf b.label = propertiesOf s.path ++ [p.property] := by
    rw [label, selects.path, ← split filled, ← split (Path.child_ne_empty isStep), Path.properties_child _ isStep]
  have value : b.kind ≠ .rootKey := by
    refine (((compile_selectsKey isKeyed.addressable compiled).2 s inside).2 b selected).resolve_left fun isKey => ?_
    have plain : propertiesOf b.label = [v.rootKeyAlias] := isKey ▸ Path.split_plain ownKey.plain
    rw [plain] at within
    have long := congrArg List.length within
    rw [List.length_append, List.length_singleton, List.length_singleton] at long
    exact absurd (List.length_eq_zero_iff.mp (Nat.succ.inj long).symm) (propertiesOf_ne_nil _)
  refine ⟨b, selected, label, fun apart outside result element delivers => ?_⟩
  exact delivers b selected value apart [p.property] within (List.cons_ne_nil _ _) outside

instance (p q : List String) : Decidable (Apart p q) :=
  inferInstanceAs (Decidable (¬ p <+: q ∧ ¬ q <+: p))

instance (b : ColumnBinding) (columns : List ColumnBinding) : Decidable (b.IsApart columns) :=
  inferInstanceAs (Decidable (∀ c ∈ columns, c ≠ b → Apart (propertiesOf b.label) (propertiesOf c.label)))

mutual

def Value.holds (number : Int64) : Value → Bool
  | .int n => n == number
  | .list items => holdsAny number items
  | .row fields => holdsWithin number fields
  | _ => false

def Value.holdsAny (number : Int64) : List Value → Bool
  | [] => false
  | item :: rest => item.holds number || holdsAny number rest

def Value.holdsWithin (number : Int64) : List (String × Value) → Bool
  | [] => false
  | field :: rest => holdsField number field || holdsWithin number rest

def Value.holdsField (number : Int64) : String × Value → Bool
  | (_, value) => value.holds number

end

namespace FilledOutline

open Outline (column association entity asks counts compiled_eq areAgreed_of_isEmpty)

/-- An order with its customer and its lines, and three of its columns under given names. -/
def order (customer size amount : String) : FilledOutline where
  definitions := [
    entity "Order" "orders" [column "id" "id" .bigInt true, column "payer" "payer_id" .bigInt false,
      association "customer" "Customer" "customer" "payer_id" "id" false,
      association "lines" "Line" "line" "id" "order_id" true],
    entity "Customer" "customer" [column "id" "id" .bigInt true, column "number" "number" .bigInt false],
    entity "Line" "line" [column "id" "id" .bigInt true, column "order" "order_id" .bigInt false,
      column "amount" "amount" .bigInt false, association "parts" "Part" "part" "id" "line_id" true],
    entity "Part" "part" [column "id" "id" .bigInt true, column "line" "line_id" .bigInt false]]
  roots := ["Order"]
  chains := [{ asks "Order" ["customer", "number"] with name := some customer },
    { counts "Order" ["lines"] with name := some size }, { asks "Order" ["lines", "amount"] with name := some amount },
    asks "Order" ["lines", "parts", "id"]]
  primary := [[("customer.id", .int 3), (customer, .int 11), ("rootKey", .int 1), (size, .int 12)]]
  collections := [[[("lines.id", .int 5), ("rootKey", .int 1), (amount, .int 13)]],
    [[("lines.id", .int 5), ("lines.parts.id", .int 8), ("rootKey", .int 1)]]]

def isReady (o : FilledOutline) (v : CompiledView) : Bool :=
  o.isComplete v && decide v.HasOwnKey

set_option maxRecDepth 100000 in
/-- A customer's number, how many lines there are, and the amounts of these are found under their names. -/
theorem order_is_delivered : ∃ registry t v,
    (order "customer.code" "size" "lines.total").compiled? = some (registry, t, v) ∧
    Setting.IsKeyed ⟨registry, none⟩ t.roots ∧ compile registry {} .sqlite none {} t = .ok v ∧ v.HasOwnKey ∧
    ((v.rootRows (order "customer.code" "size" "lines.total").primary).map (·.keyText)).Nodup ∧
    ((order "customer.code" "size" "lines.total").given v).map Prod.fst = v.subSelects ∧
    (∀ b ∈ v.columns, b.IsApart v.columns ∧ ∀ q ∈ v.rootPlaces, Apart (propertiesOf b.label) q) ∧
    (∀ s ∈ v.subSelects, ∀ b ∈ s.columns, b.IsApart s.columns) ∧
    ((order "customer.code" "size" "lines.total").merged v).map (fun row =>
      [11, 12, 13].map fun number => Value.holds number (.row row.fields)) = [[true, true, true]] ∧
    v.SelectsAsked registry t ∧ List.Forall₂
      (v.RowDelivers ((order "customer.code" "size" "lines.total").given v))
      (order "customer.code" "size" "lines.total").primary
      ((order "customer.code" "size" "lines.total").merged v) := by
  have checked : ((order "customer.code" "size" "lines.total").compiled?.map fun found =>
      found.2.1.otherRoots.isEmpty && (order "customer.code" "size" "lines.total").isReady found.2.2 &&
      decide (∀ e ∈ found.2.1.roots ++ found.1.all, ∀ a ∈ e.attributes, a.isAssociation = true → IsStep a.property) &&
      decide (∀ e ∈ found.1.all, ∀ key ∈ e.elementKeys, '.' ∉ key.toList ∧
        ∀ a ∈ e.attributes, a.isAssociation = true → a.property ≠ key) &&
      decide (∀ b ∈ found.2.2.columns, b.IsApart found.2.2.columns ∧
        ∀ q ∈ found.2.2.rootPlaces, Apart (propertiesOf b.label) q) &&
      decide (∀ s ∈ found.2.2.subSelects, ∀ b ∈ s.columns, b.IsApart s.columns) &&
      ((order "customer.code" "size" "lines.total").merged found.2.2).map (fun row =>
        [11, 12, 13].map fun number => Value.holds number (.row row.fields)) == [[true, true, true]]) = some true := by
    decide +kernel
  obtain ⟨⟨registry, t, v⟩, found, checked⟩ := Option.map_eq_some_iff.mp checked
  simp only [isReady, Bool.and_eq_true, decide_eq_true_eq, beq_iff_eq] at checked
  obtain ⟨⟨⟨⟨⟨⟨single, complete, ownKey⟩, steps⟩, keys⟩, apart⟩, within⟩, held⟩ := checked
  obtain ⟨distinct, each⟩ := of_isComplete complete
  obtain ⟨-, -, compiled⟩ := compiled_eq found
  have isKeyed : Setting.IsKeyed ⟨registry, none⟩ t.roots := ⟨⟨steps, areAgreed_of_isEmpty single⟩, keys⟩
  obtain ⟨selects, delivers⟩ := fetched_columns_are_delivered isKeyed compiled ownKey distinct each
  exact ⟨registry, t, v, found, isKeyed, compiled, ownKey, distinct, each, apart, within, held, selects, delivers⟩

def Loses (o : FilledOutline) (name : String) (number : Int64) : Prop :=
  ∃ registry t v, o.compiled? = some (registry, t, v) ∧ v.HasOwnKey ∧
    ((v.rootRows o.primary).map (·.keyText)).Nodup ∧ (o.given v).map Prod.fst = v.subSelects ∧
    (∃ item ∈ FilterNode.itemsOfAll t.nodes, item.outputName = some name) ∧
    (∃ x ∈ v.parts, ∃ b ∈ x.columns, b.label = name ∧ b.kind ≠ .rootKey) ∧
    (∃ result ∈ o.primary ++ o.collections.flatten, (result.read name).holds number = true) ∧
    ∀ row ∈ o.merged v, Value.holds number (.row row.fields) = false

theorem loses_of_any {o : FilledOutline} {name : String} {number : Int64}
    (checked : (o.compiled?.any fun found => o.isReady found.2.2 &&
      (FilterNode.itemsOfAll found.2.1.nodes).any (·.outputName == some name) &&
      (found.2.2.parts.any fun x => x.columns.any fun b => b.label == name && b.kind != .rootKey) &&
      ((o.primary ++ o.collections.flatten).any fun result => (result.read name).holds number) &&
      (o.merged found.2.2).all fun row => !Value.holds number (.row row.fields)) = true) :
    o.Loses name number := by
  obtain ⟨⟨registry, t, v⟩, found, checked⟩ := (Option.any_eq_true _ _).mp checked
  simp only [isReady, Bool.and_eq_true, decide_eq_true_eq, List.any_eq_true, List.all_eq_true, beq_iff_eq,
    bne_iff_ne, Bool.not_eq_true'] at checked
  obtain ⟨⟨⟨⟨⟨complete, ownKey⟩, named⟩, selected⟩, read⟩, gone⟩ := checked
  obtain ⟨distinct, each⟩ := of_isComplete complete
  exact ⟨registry, t, v, found, ownKey, distinct, each, named, selected, read, gone⟩

set_option maxRecDepth 100000 in
/-- Under the name of the row that holds it or of a property of a collection, or outside of the element that it is
fetched for, a value does not get into the view. -/
theorem order_is_lost : (order "customer" "size" "lines.total").Loses "customer" 11 ∧
    (order "customer.code" "lines.size" "lines.total").Loses "lines.size" 12 ∧
    (order "customer.code" "size" "total").Loses "total" 13 := by
  refine ⟨loses_of_any ?_, loses_of_any ?_, loses_of_any ?_⟩
  all_goals decide +kernel

end FilledOutline

end ViewEngine
