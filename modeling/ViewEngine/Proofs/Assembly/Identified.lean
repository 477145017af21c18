import ViewEngine.Proofs.Assembly.Views
import ViewEngine.Proofs.Relational.Evaluation
import ViewEngine.Proofs.Text.Joined

namespace ViewEngine

open Compile Row CompiledView

/-- A text is cast to itself. -/
def Collation.KeepsTexts (c : Collation) : Prop :=
  ∀ text, c.textOf (.text text) = text

theorem Collation.standard_keepsTexts : standard.KeepsTexts :=
  fun _ => rfl

theorem Collation.joinedText_texts {c : Collation} (keepsTexts : c.KeepsTexts) (a b : String) :
    c.joinedText (.text a) (.text b) = .text (a ++ b) := by
  rw [joinedText, keepsTexts, keepsTexts]
  rfl

namespace Entity

def keyColumns (e : Entity) : List String :=
  e.identityKeys.filterMap (·.column)

def identity (e : Entity) (record : Record) : List Value :=
  e.keyColumns.map record

/-- The text that is compared of a value of a key. Values of several keys are cast, that of a single one is not. -/
def keyText (e : Entity) (c : Collation) (value : Value) : String :=
  if e.keyColumns.length = 1 then value.toText else c.textOf value

def keyTexts (e : Entity) (c : Collation) (record : Record) : List String :=
  (e.identity record).map (e.keyText c)

/-- Stored rows with different keys can be told apart by the texts of these. -/
structure TellsApart (e : Entity) (delimiter : String) (c : Collation) (records : List Record) : Prop where
  held : ∀ r ∈ records, ∀ value ∈ e.identity r, value.isStored = true ∧ value.isNull = false
  texts : ∀ a ∈ records, ∀ b ∈ records, ∀ column ∈ e.keyColumns,
    e.keyText c (a column) = e.keyText c (b column) → a column = b column
  part : ∀ a ∈ records, ∀ b ∈ records, Text.PartFrom delimiter (e.keyTexts c a) (e.keyTexts c b)

variable {e : Entity} {delimiter : String} {c : Collation} {records : List Record} {frame : Frame} {a b : Record}

theorem castKey_eval {column : String} (held : (frame.rows 0 column).isNull = false) :
    (Sql.Expr.castText (.columnOf 0 column)).eval c frame = .text (c.textOf (frame.rows 0 column)) := by
  rw [Sql.Expr.eval, Sql.Expr.eval_columnOf, Collation.castText, held]
  rfl

theorem foldl_keys_eval (delimiter : String) (keepsTexts : c.KeepsTexts) {columns : List String} {joined : Sql.Expr} {text : String}
    (isText : joined.eval c frame = .text text) (held : ∀ column ∈ columns, (frame.rows 0 column).isNull = false) :
    (columns.foldl (fun joined column =>
      (joined.concatenated (.string delimiter)).concatenated (.castText (.columnOf 0 column))) joined).eval c frame =
      .text (delimiter.intercalate (text :: columns.map fun column => c.textOf (frame.rows 0 column))) := by
  induction columns generalizing joined text with
  | nil => rw [List.map_nil, String.intercalate_singleton]; exact isText
  | cons column rest ih =>
      have longer : ((joined.concatenated (.string delimiter)).concatenated
          (.castText (.columnOf 0 column))).eval c frame =
          .text (text ++ delimiter ++ c.textOf (frame.rows 0 column)) := by
        have separated : (joined.concatenated (.string delimiter)).eval c frame = .text (text ++ delimiter) :=
          (congrArg (c.joinedText · _) isText).trans (c.joinedText_texts keepsTexts _ _)
        have cast := castKey_eval (c := c) (held column (List.mem_cons_self ..))
        exact (congrArg₂ c.joinedText separated cast).trans (c.joinedText_texts keepsTexts _ _)
      rw [List.foldl_cons, ih longer fun other later => held other (List.mem_cons_of_mem _ later), List.map_cons,
        String.intercalate_cons_append, String.intercalate_cons_cons]

theorem rootKey_eval (delimiter : String) (keepsTexts : c.KeepsTexts)
    (held : ∀ value ∈ e.identity (frame.rows 0), value.isStored = true ∧ value.isNull = false) :
    ((e.rootKey delimiter).eval c frame).collapse = (e.rootKey delimiter).eval c frame ∧
      ((e.rootKey delimiter).eval c frame).toText = delimiter.intercalate (e.keyTexts c (frame.rows 0)) := by
  have known : ∀ column ∈ e.keyColumns, (frame.rows 0 column).isStored = true ∧ (frame.rows 0 column).isNull = false :=
    fun column member => held _ (List.mem_map_of_mem member)
  unfold rootKey keyTexts identity
  rw [← keyColumns]
  rcases columns : e.keyColumns with _ | ⟨first, _ | ⟨second, rest⟩⟩
  · exact ⟨rfl, by rw [List.map_nil, List.map_nil, String.intercalate_nil]; rfl⟩
  · have single : e.keyText c (frame.rows 0 first) = (frame.rows 0 first).toText := by
      rw [keyText, columns]
      exact if_pos rfl
    have stored := (known first (columns ▸ List.mem_cons_self ..)).1
    constructor
    · rw [Sql.Expr.eval_columnOf]
      cases value : frame.rows 0 first with
      | row fields => rw [value] at stored; contradiction
      | _ => rfl
    · rw [List.map_singleton, List.map_singleton, String.intercalate_singleton, single]
      rfl
  · have several : e.keyText c = c.textOf := by
      funext value
      rw [keyText, columns]
      exact if_neg (by simp)
    have isNull : ∀ column ∈ first :: second :: rest, (frame.rows 0 column).isNull = false :=
      fun column member => (known column (columns ▸ member)).2
    have joined := foldl_keys_eval delimiter keepsTexts (castKey_eval (isNull first (List.mem_cons_self ..)))
      fun column member => isNull column (List.mem_cons_of_mem _ member)
    dsimp only [joinedKeys, Option.getD_some]
    rw [joined, several, List.map_map]
    exact ⟨rfl, rfl⟩

theorem TellsApart.identity_eq (apart : e.TellsApart delimiter c records) (first : a ∈ records) (second : b ∈ records)
    (same : delimiter.intercalate (e.keyTexts c a) = delimiter.intercalate (e.keyTexts c b)) :
    e.identity a = e.identity b := by
  have lengths : (e.keyTexts c a).length = (e.keyTexts c b).length := by
    simp only [keyTexts, identity, List.length_map]
  have texts := (apart.part a first b second).intercalate_injective lengths same
  rw [keyTexts, keyTexts, identity, identity, List.map_map, List.map_map] at texts
  refine List.map_congr_left fun column member => apart.texts a first b second column member ?_
  exact List.map_inj_left.mp texts column member

end Entity

namespace Compile

variable {setting : Setting} {roots : List Entity} {asked : FilterItem → Prop} {r : Root} {whole : JoinPlan}
  {statement : Sql.Statement} {columns : List ColumnBinding} {c : Collation}

theorem IsMade.read_key (addressable : setting.IsAddressable roots)
    (made : IsMade setting roots asked r whole statement columns)
    (others : ∀ b ∈ columns, b.kind ≠ .rootKey → b.label ≠ r.keyAlias) (frame : Frame) :
    (statement.resultOf c frame).read r.keyAlias = r.key.eval c frame := by
  obtain ⟨projections, selected, rfl, key, only⟩ := made.selects addressable
  have entries : statement.selected.filterMap (fun item => item.label.map fun label => (label, item.expr.eval c frame)) =
      projections.map fun p => (p.binding.label, p.expr.eval c frame) := by
    rw [selected, List.filterMap_map, ← List.filterMap_eq_map]
    rfl
  have found : (statement.resultOf c frame).get? r.keyAlias = some (r.key.eval c frame) := by
    rw [Sql.Statement.resultOf, entries]
    refine Keyed.get?_ofList (List.mem_map.mpr ⟨_, key, rfl⟩) fun other member => ?_
    obtain ⟨p, inside, same⟩ := List.mem_map.mp member
    obtain ⟨label, rfl⟩ := Prod.mk.inj same
    rcases only p inside with rfl | noKey
    · rfl
    · exact absurd label (others _ (List.mem_map_of_mem inside) noKey)
  rw [Row.read, found]
  rfl

end Compile

namespace CompiledView

variable {registry : Registry} {settings : ViewSettings} {dialect : Sql.Dialect} {pointInTime : Option Timestamp}
  {page : Page} {t : FilterTree} {v : CompiledView} {c : Collation}

theorem compile_readsKey (addressable : Setting.IsAddressable ⟨registry, pointInTime⟩ t.roots)
    (compiled : compile registry settings dialect pointInTime page t = .ok v) (ownLabel : v.HasOwnLabel) (frame : Frame) :
    (v.primary.resultOf c frame).read v.rootKeyAlias = (t.root.rootKey settings.keyDelimiter).eval c frame ∧
      ∀ s ∈ v.subSelects, (s.statement.resultOf c frame).read v.rootKeyAlias =
        (t.root.rootKey settings.keyDelimiter).eval c frame := by
  have label : v.rootKeyAlias = settings.rootKeyAlias := compile_rootKeyAlias compiled
  have others {b : ColumnBinding} (selects : v.Selects b) (noKey : b.kind ≠ .rootKey) :
      b.label ≠ (Root.ofTree settings t).keyAlias := by
    intro same
    have plain := ownLabel.plain
    have elsewhere := ownLabel.columns b selects noKey
    rw [same, label, Row.propertiesOf] at elsewhere
    rw [label] at plain
    exact elsewhere (congrArg List.head? (Path.split_plain plain))
  obtain ⟨-, -, ⟨statement, offset, limit, isPrimary, primary⟩, each⟩ := compile_made addressable compiled
  rw [label, isPrimary]
  exact ⟨primary.read_key addressable (fun b member => others (.inl member)) frame, fun s member =>
    (each s member).1.read_key addressable (fun b inside => others (.inr ⟨s, member, inside⟩)) frame⟩

end CompiledView

open scoped Classical in
/-- The results that were read for a row, each with its sub-select. -/
noncomputable def Entity.resultsOf (e : Entity) (c : Collation) (collections : List (SubSelect × List Frame))
    (record : Record) : List (SubSelect × Row) :=
  collections.flatMap fun x =>
    (x.2.filter fun frame => e.identity (frame.rows 0) = e.identity record).map fun frame =>
      (x.1, x.1.statement.resultOf c frame)

/-- Where the texts of keys tell stored rows apart, the root rows have different key texts. Each of them takes the
results that were read for it, and none that were read for others. -/
theorem root_keys_tell_rows_apart {registry : Registry} {settings : ViewSettings} {dialect : Sql.Dialect}
    {pointInTime : Option Timestamp} {page : Page} {t : FilterTree} {v : CompiledView}
    (addressable : Setting.IsAddressable ⟨registry, pointInTime⟩ t.roots)
    (compiled : compile registry settings dialect pointInTime page t = .ok v) (ownKey : v.HasOwnKey)
    {c : Collation} (keepsTexts : c.KeepsTexts) {records : List Record}
    (apart : t.root.TellsApart settings.keyDelimiter c records)
    {primary : List Frame} (stored : ∀ frame ∈ primary, frame.rows 0 ∈ records)
    (different : (primary.map fun frame => t.root.identity (frame.rows 0)).Nodup)
    {collections : List (SubSelect × List Frame)}
    (read : ∀ x ∈ collections, x.1 ∈ v.subSelects ∧ ∀ frame ∈ x.2, frame.rows 0 ∈ records) :
    (primary.map fun frame => ((t.root.rootKey settings.keyDelimiter).eval c frame).toText).Nodup ∧
    v.merge (v.rootRows (primary.map (v.primary.resultOf c)))
        (collections.map fun x => (x.1, x.2.map (x.1.statement.resultOf c))) =
      primary.map fun frame => ⟨((t.root.rootKey settings.keyDelimiter).eval c frame).toText,
        v.received (t.root.resultsOf c collections (frame.rows 0))
          (startAll v.rootPlaces (v.rootFields (v.primary.resultOf c frame)))⟩ := by
  have readsKey := compile_readsKey (c := c) addressable compiled ownKey.toHasOwnLabel
  obtain ⟨primaryKey, selectsKey⟩ := compile_selectsKey addressable compiled
  have text {frame : Frame} (among : frame.rows 0 ∈ records) :=
    Entity.rootKey_eval settings.keyDelimiter keepsTexts (apart.held _ among)
  have same {x y : Frame} (first : x.rows 0 ∈ records) (second : y.rows 0 ∈ records) :
      ((t.root.rootKey settings.keyDelimiter).eval c x).toText = ((t.root.rootKey settings.keyDelimiter).eval c y).toText ↔
        t.root.identity (x.rows 0) = t.root.identity (y.rows 0) := by
    rw [(text first).2, (text second).2]
    exact ⟨apart.identity_eq first second, fun same => by rw [Entity.keyTexts, Entity.keyTexts, same]⟩
  have keyOf {frame : Frame} (among : frame.rows 0 ∈ records) :
      v.keyText (startAll v.rootPlaces (v.rootFields (v.primary.resultOf c frame))) =
        ((t.root.rootKey settings.keyDelimiter).eval c frame).toText := by
    rw [ownKey.keyText_start primaryKey, (readsKey frame).1, (text among).1]
  have distinct : (primary.map fun frame => ((t.root.rootKey settings.keyDelimiter).eval c frame).toText).Nodup := by
    rw [List.Nodup, List.pairwise_map] at different ⊢
    refine different.imp_of_mem fun first second apart alike => apart ?_
    exact (same (stored _ first) (stored _ second)).mp alike
  have rows : v.rootRows (primary.map (v.primary.resultOf c)) = primary.map fun frame =>
      ⟨((t.root.rootKey settings.keyDelimiter).eval c frame).toText,
        startAll v.rootPlaces (v.rootFields (v.primary.resultOf c frame))⟩ := by
    rw [rootRows_eq, List.map_map]
    exact List.map_congr_left fun frame member => by rw [Function.comp_apply, keyOf (stored frame member)]
  refine ⟨distinct, ?_⟩
  rw [rows, merge_eq_map (by rwa [List.map_map]), List.map_map]
  refine List.map_congr_left fun frame member => ?_
  have taken : v.deliveries ((t.root.rootKey settings.keyDelimiter).eval c frame).toText
      (collections.map fun x => (x.1, x.2.map (x.1.statement.resultOf c))) =
        t.root.resultsOf c collections (frame.rows 0) := by
    rw [deliveries, Entity.resultsOf, List.flatMap_map]
    refine List.flatMap_congr fun x inside => ?_
    obtain ⟨known, among⟩ := read x inside
    rw [resultsFor, List.filter_map, List.map_map]
    refine congrArg _ (List.filter_congr fun other isRead => ?_)
    rw [Function.comp_apply, ownKey.keyText_eq known (selectsKey x.1 known), resultKey, (readsKey other).2 x.1 known]
    exact (Bool.beq_eq_decide_eq ..).trans (decide_eq_decide.mpr (same (among other isRead) (stored frame member)))
  rw [Function.comp_apply, taken]

theorem Entity.tellsApart_of_integers {e : Entity} {records : List Record}
    (integers : ∀ r ∈ records, ∀ value ∈ e.identity r, ∃ n, value = .int n) : e.TellsApart "-" .standard records := by
  have keyText : e.keyText .standard = Value.toText := by
    funext value
    unfold Entity.keyText
    split <;> rfl
  refine ⟨fun r member value inside => ?_, fun a first b second column inside same => ?_, fun a first b second => ?_⟩
  · obtain ⟨n, rfl⟩ := integers r member value inside
    exact ⟨rfl, rfl⟩
  · obtain ⟨m, isFirst⟩ := integers a first _ (List.mem_map_of_mem inside)
    obtain ⟨n, isSecond⟩ := integers b second _ (List.mem_map_of_mem inside)
    rw [keyText, isFirst, isSecond] at same
    rw [isFirst, isSecond, Int64.toInt_inj.mp (Text.toString_integer_injective same)]
  · refine Text.partFrom_of_forall fun x inside y other => ?_
    obtain ⟨_, member, rfl⟩ := List.mem_map.mp inside
    obtain ⟨_, further, rfl⟩ := List.mem_map.mp other
    obtain ⟨m, rfl⟩ := integers a first _ member
    obtain ⟨n, rfl⟩ := integers b second _ further
    rw [keyText]
    exact Text.integers_part m.toInt n.toInt

namespace Outline

def regional (type : ColumnType) : Outline where
  definitions := [
    entity "Order" "orders" [column "region" "region" type true, column "number" "number" type true,
      association "lines" "Line" "line" "number" "order_number" true],
    entity "Line" "line" [column "id" "id" .bigInt true, column "order" "order_number" type false]]
  roots := ["Order"]
  chains := [asks "Order" ["lines", "id"]]

def order (region number : Value) : Record :=
  fun column => if column = "region" then region else number

def withLine (order : Record) (line : Int64) : Frame where
  rows table := if table = 0 then order else fun _ => .int line

def signed : List Record :=
  [order (.int 1) (.int (-23)), order (.int 1) (.int 23)]

def linesRead (v : CompiledView) (lines : List Frame) : List (SubSelect × List Frame) :=
  v.subSelects.map fun s => (s, lines)

set_option maxRecDepth 100000 in
/-- Orders have different keys also where their numbers differ in their signs only. -/
theorem signed_orders_are_apart : ∃ registry t v, (regional .bigInt).compiled? = some (registry, t, v) ∧
    Setting.IsAddressable ⟨registry, none⟩ t.roots ∧ v.HasOwnKey ∧ t.root.TellsApart "-" .standard signed ∧
    v.subSelects.length = 1 ∧
    ((signed.map (withLine · 5)).map fun frame => ((t.root.rootKey "-").eval .standard frame).toText).Nodup ∧
    v.merge (v.rootRows ((signed.map (withLine · 5)).map (v.primary.resultOf .standard)))
        ((linesRead v (signed.map (withLine · 5))).map fun x => (x.1, x.2.map (x.1.statement.resultOf .standard))) =
      (signed.map (withLine · 5)).map fun frame => ⟨((t.root.rootKey "-").eval .standard frame).toText,
        v.received (t.root.resultsOf .standard (linesRead v (signed.map (withLine · 5))) (frame.rows 0))
          (startAll v.rootPlaces (v.rootFields (v.primary.resultOf .standard frame)))⟩ := by
  have checked : ((regional .bigInt).compiled?.map fun found => found.2.1.otherRoots.isEmpty &&
      decide (∀ e ∈ found.2.1.roots ++ found.1.all, ∀ a ∈ e.attributes, a.isAssociation = true → IsStep a.property) &&
      decide found.2.2.HasOwnKey && found.2.1.root.keyColumns == ["region", "number"] &&
      found.2.2.subSelects.length == 1) = some true := by
    decide +kernel
  obtain ⟨⟨registry, t, v⟩, found, checked⟩ := Option.map_eq_some_iff.mp checked
  simp only [Bool.and_eq_true, decide_eq_true_eq, beq_iff_eq] at checked
  obtain ⟨⟨⟨⟨single, steps⟩, ownKey⟩, columns⟩, collections⟩ := checked
  obtain ⟨-, -, compiled⟩ := compiled_eq found
  have addressable : Setting.IsAddressable ⟨registry, none⟩ t.roots := ⟨steps, areAgreed_of_isEmpty single⟩
  have identity (region number : Int64) :
      t.root.identity (order (.int region) (.int number)) = [.int region, .int number] := by
    rw [Entity.identity, columns]
    rfl
  have apart : t.root.TellsApart "-" .standard signed := by
    refine Entity.tellsApart_of_integers fun r member => ?_
    simp only [signed, List.mem_cons, List.not_mem_nil, or_false] at member
    rcases member with rfl | rfl <;> simp [identity]
  have stored : ∀ frame ∈ signed.map (withLine · 5), frame.rows 0 ∈ signed := by
    intro frame member
    obtain ⟨r, inside, rfl⟩ := List.mem_map.mp member
    exact inside
  have different : ((signed.map (withLine · 5)).map fun frame => t.root.identity (frame.rows 0)).Nodup := by
    have identities : (signed.map (withLine · 5)).map (fun frame => t.root.identity (frame.rows 0)) =
        [[.int 1, .int (-23)], [.int 1, .int 23]] := congrArg₂ (fun a b => [a, b]) (identity ..) (identity ..)
    rw [identities]
    simp
  refine ⟨registry, t, v, found, addressable, ownKey, apart, collections, ?_⟩
  refine root_keys_tell_rows_apart addressable compiled ownKey Collation.standard_keepsTexts apart stored different ?_
  intro x member
  obtain ⟨s, inside, rfl⟩ := List.mem_map.mp member
  exact ⟨inside, stored⟩

def hyphenated : List Record :=
  [order (.text "a-b") (.text "c"), order (.text "a") (.text "b-c")]

set_option maxRecDepth 100000 in
/-- Different keys have one text where a key holds the delimiter. The lines of one order are then put into the other. -/
theorem hyphenated_orders_run_together : ∃ registry t v, (regional .varchar).compiled? = some (registry, t, v) ∧
    t.root.keyColumns = ["region", "number"] ∧
    (hyphenated.map fun order => ((t.root.rootKey "-").eval .standard (withLine order 5)).toText) = ["a-b-c", "a-b-c"] ∧
    ((v.merge (v.rootRows (hyphenated.map fun order => v.primary.resultOf .standard (withLine order 5)))
      (v.subSelects.map fun s => (s, hyphenated.map fun order => s.statement.resultOf .standard (withLine order 5)))).map
      fun row => ((row.fields.get? "lines").bind Value.asList?).map List.length) = [some 0, some 2] := by
  have checked : ((regional .varchar).compiled?.map fun found => found.2.1.root.keyColumns == ["region", "number"] &&
      (hyphenated.map fun order => ((found.2.1.root.rootKey "-").eval .standard (withLine order 5)).toText) ==
        ["a-b-c", "a-b-c"] &&
      ((found.2.2.merge (found.2.2.rootRows (hyphenated.map fun order =>
        found.2.2.primary.resultOf .standard (withLine order 5))) (found.2.2.subSelects.map fun s =>
          (s, hyphenated.map fun order => s.statement.resultOf .standard (withLine order 5)))).map
        fun row => ((row.fields.get? "lines").bind Value.asList?).map List.length) == [some 0, some 2]) = some true := by
    decide +kernel
  obtain ⟨⟨registry, t, v⟩, found, checked⟩ := Option.map_eq_some_iff.mp checked
  simp only [Bool.and_eq_true, beq_iff_eq] at checked
  exact ⟨registry, t, v, found, checked.1.1, checked.1.2, checked.2⟩

end Outline

end ViewEngine
