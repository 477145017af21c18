import ViewEngine.Proofs.Relational.Execution
import ViewEngine.View.Planning

namespace ViewEngine

open Sql

namespace BoundParameter

variable {column other : String}

theorem keyName_inj : keyName column = keyName other ↔ plainName column = plainName other := by
  simp only [keyName, ← String.toList_inj, String.toList_append, List.append_cancel_left_eq]

theorem valueName_inj : valueName column = valueName other ↔ plainName column = plainName other := by
  simp only [valueName, ← String.toList_inj, String.toList_append, List.append_cancel_left_eq]

theorem keyName_ne_valueName : keyName column ≠ valueName other := by
  simp [keyName, valueName, ← String.toList_inj]

theorem keyName_ne_nowName : keyName column ≠ nowName := by
  simp [keyName, nowName, ← String.toList_inj]

theorem valueName_ne_nowName : valueName column ≠ nowName := by
  simp [valueName, nowName, ← String.toList_inj]

theorem keyNames_nodup {columns : List String} (distinct : (columns.map plainName).Nodup) :
    (columns.map keyName).Nodup :=
  List.Pairwise.map _ (fun _ _ different same => different (keyName_inj.mp same))
    (List.pairwise_map.mp distinct)

theorem valueNames_nodup {columns : List String} (distinct : (columns.map plainName).Nodup) :
    (columns.map valueName).Nodup :=
  List.Pairwise.map _ (fun _ _ different same => different (valueName_inj.mp same))
    (List.pairwise_map.mp distinct)

end BoundParameter

namespace Planning

open BoundParameter

variable {c : Collation} {attributes columns : List Attribute} {keys : List (Attribute × Value)}
  {parameters : List BoundParameter}

def hasKeys (c : Collation) (attributes : List Attribute) (parameters : List BoundParameter)
    (record : Record) : Bool :=
  attributes.all fun a => (c.equal (record a.columnName) (valueOf parameters (keyName a.columnName))).holds

def pin (a : Attribute) : Expr :=
  (storedColumn a).equals (.parameter (keyName a.columnName))

theorem pinned_eq (s : Statement) (keys : List (Attribute × Value)) :
    pinned s keys =
      { s with conditions := s.conditions ++ ((keys.map Prod.fst).map pin).map .predicate } := by
  induction keys generalizing s with
  | nil =>
      cases s
      simp only [pinned, List.foldl_nil, List.map_nil, List.append_nil]
  | cons key rest ih =>
      have unfolded : pinned s (key :: rest) = pinned (s.filter (pin key.1)) rest := rfl
      simp only [unfolded, ih, Statement.filter, Statement.addCondition, List.append_assoc, List.map_cons,
        List.singleton_append]

theorem all_pin_holds (attributes : List Attribute) (record : Record) :
    (attributes.map pin).all (Expr.holds c (.ofRecord parameters record)) =
      hasKeys c attributes parameters record := by
  simp only [List.all_map, hasKeys, Function.comp_def, pin, Expr.holds_equals, storedColumn,
    Expr.eval_unqualified, Expr.eval, Frame.ofRecord]

theorem keyParameters_names (keys : List (Attribute × Value)) :
    (keyParameters keys).map (·.name) = ((keys.map Prod.fst).map (·.columnName)).map keyName := by
  simp only [keyParameters, List.map_map]
  rfl

theorem valueParameters_names (columns : List Attribute) (data : Row) :
    (valueParameters columns data).map (·.name) = (columns.map (·.columnName)).map valueName := by
  simp only [valueParameters, List.map_map]
  rfl

theorem mem_keyParameters {key : Attribute × Value} (member : key ∈ keys) :
    ⟨keyName key.1.columnName, key.1.columnType.coerce key.2, key.1.columnType⟩ ∈ keyParameters keys :=
  List.mem_map.mpr ⟨key, member, rfl⟩

theorem admits_predicates {s : Statement} {predicates : List Expr} {frame : Frame}
    (conditions : s.conditions = predicates.map .predicate) :
    s.admits c frame = predicates.all (Expr.holds c frame) := by
  rw [Statement.admits, Statement.predicate?, conditions, Condition.fold?_predicates]

theorem pins_scoped {known bound : List String} (keysKnown : ∀ a ∈ attributes, a.columnName ∈ known)
    (keysBound : ∀ a ∈ attributes, keyName a.columnName ∈ bound) :
    ((attributes.map pin).map Condition.predicate).all (·.isScoped known bound) = true := by
  simp only [List.all_map, List.all_eq_true]
  intro a member
  simp only [Function.comp_apply, Condition.isScoped, pin, Expr.equals, storedColumn, Expr.unqualified,
    Expr.isScoped, List.contains_eq_mem, decide_eq_true_eq, Bool.and_eq_true]
  exact ⟨keysKnown a member, keysBound a member⟩

section Closing

variable {table column : String} {db : Database}

/-- The statement that ends the open version with the keys of some attributes. -/
def closeStatement (table column : String) (attributes : List Attribute) : Statement :=
  { Statement.updateOf table with
    assignments := [(column, nowPlaceholder)]
    conditions := (attributes.map pin ++ [(Expr.unqualified column).isNull]).map .predicate }

theorem closing_eq (e : Entity) (column : String) (now : Timestamp) (keys : List (Attribute × Value)) :
    closing e column now keys =
      (closeStatement e.table column (keys.map Prod.fst), .now now :: keyParameters keys) := by
  simp only [closing, closeStatement, pinned_eq, Statement.filter, Statement.addCondition,
    Statement.assign, Statement.updateOf, List.nil_append, List.map_append, List.map_cons, List.map_nil]

def isEnded (c : Collation) (column : String) (attributes : List Attribute)
    (parameters : List BoundParameter) (record : Record) : Bool :=
  hasKeys c attributes parameters record && (record column).isNull

/-- Ending a version gives its end to the open rows with the keys, and changes nothing else. -/
theorem closeStatement_execute? (known : column ∈ (db table).columns)
    (keysKnown : ∀ a ∈ attributes, a.columnName ∈ (db table).columns)
    (nowBound : nowName ∈ parameters.map (·.name))
    (keysBound : ∀ a ∈ attributes, keyName a.columnName ∈ parameters.map (·.name)) :
    (closeStatement table column attributes).execute? c parameters db =
      some (Function.update db table { db table with
          rows := (db table).rows.map fun record =>
            if isEnded c column attributes parameters record then
              Function.update record column (valueOf parameters nowName)
            else record },
        (db table).rows.countP (isEnded c column attributes parameters)) := by
  have admitted : (closeStatement table column attributes).admitsRecord c parameters =
      isEnded c column attributes parameters := by
    funext record
    rw [Statement.admitsRecord, admits_predicates rfl, List.all_append, all_pin_holds]
    simp [isEnded, Frame.ofRecord]
  have updated (record : Record) : (closeStatement table column attributes).updated c parameters record =
      Function.update record column (valueOf parameters nowName) :=
    Record.assign_singleton ..
  have conditions : (closeStatement table column attributes).isConditionScoped parameters
      (db table).columns = true := by
    rw [Statement.isConditionScoped, closeStatement, List.map_append, List.all_append,
      pins_scoped keysKnown keysBound]
    simpa [Condition.isScoped, Expr.isNull, Expr.unqualified, Expr.isScoped] using known
  have accepted : (db table).accepts ((closeStatement table column attributes).assignments.map Prod.fst) :=
    ⟨List.pairwise_singleton .., by simpa [closeStatement] using known⟩
  rw [Statement.execute?_update table rfl rfl accepted conditions
    (by simpa [closeStatement, nowPlaceholder, Expr.isScoped] using nowBound)]
  simp only [admitted, updated]

end Closing

section Successor

variable {e : Entity} {opening : String} {data : Row} {now : Timestamp} {db : Database}

/-- The columns of the next version of a row, each with what it is given. -/
def successorItems (e : Entity) (opening : String) (columns : List Attribute) : List (String × Expr) :=
  (carriedColumns e columns).map (fun column => (column, Expr.unqualified column)) ++
    columns.map (fun a => (a.columnName, placeholder a)) ++ [(opening, nowPlaceholder)]

def successorParameters (columns : List Attribute) (data : Row) (now : Timestamp)
    (keys : List (Attribute × Value)) : List BoundParameter :=
  valueParameters columns data ++ [.now now] ++ keyParameters keys

def succeeding (c : Collation) (e : Entity) (opening : String) (columns : List Attribute)
    (parameters : List BoundParameter) (record : Record) : Record :=
  Record.missing.assign ((successorItems e opening columns).map fun item =>
    (item.1, item.2.eval c (.ofRecord parameters record)))

theorem foldl_addColumn (items : List (String × Expr)) (s : Statement) :
    items.foldl (fun s item => s.addColumn item.2 none) s =
      { s with selected := s.selected ++ items.map fun item => ⟨item.2, none⟩ } := by
  induction items generalizing s with
  | nil =>
      cases s
      simp only [List.foldl_nil, List.map_nil, List.append_nil]
  | cons item rest ih =>
      rw [List.foldl_cons, ih]
      simp only [Statement.addColumn, List.append_assoc, List.singleton_append, List.map_cons]

theorem foldl_addInsertColumn (items : List (String × Expr)) (s : Statement) :
    items.foldl (fun s item => s.addInsertColumn item.1) s =
      { s with insertColumns := s.insertColumns ++ items.map Prod.fst } := by
  induction items generalizing s with
  | nil =>
      cases s
      simp only [List.foldl_nil, List.map_nil, List.append_nil]
  | cons item rest ih =>
      rw [List.foldl_cons, ih]
      simp only [Statement.addInsertColumn, List.append_assoc, List.singleton_append, List.map_cons]

def successorSource (e : Entity) (opening : String) (columns attributes : List Attribute) : Statement :=
  { Statement.select.addTable e.table none with
    selected := (successorItems e opening columns).map fun item => ⟨item.2, none⟩
    conditions := (attributes.map pin).map .predicate }

theorem successor_eq (e : Entity) (opening : String) (columns : List Attribute)
    (keys : List (Attribute × Value)) :
    successor e opening columns keys =
      { Statement.insertInto e.table with
        insertColumns := (successorItems e opening columns).map Prod.fst
        source := some (successorSource e opening columns (keys.map Prod.fst)) } := by
  have unfolded : successor e opening columns keys =
      { (successorItems e opening columns).foldl (fun s item => s.addInsertColumn item.1)
          (Statement.insertInto e.table) with
        source := some (pinned ((successorItems e opening columns).foldl
          (fun s item => s.addColumn item.2 none) (Statement.select.addTable e.table none)) keys) } := rfl
  rw [unfolded, foldl_addColumn, foldl_addInsertColumn, pinned_eq]
  rfl

theorem successorParameters_names (columns : List Attribute) (data : Row) (now : Timestamp)
    (keys : List (Attribute × Value)) :
    (successorParameters columns data now keys).map (·.name) =
      (columns.map (·.columnName)).map valueName ++ nowName ::
        ((keys.map Prod.fst).map (·.columnName)).map keyName := by
  simp only [successorParameters, List.map_append, valueParameters_names, keyParameters_names,
    List.append_assoc]
  rfl

theorem successorParameters_nodup
    (distinct : (((keys.map Prod.fst).map (·.columnName)).map plainName).Nodup)
    (columnsDistinct : ((columns.map (·.columnName)).map plainName).Nodup) :
    ((successorParameters columns data now keys).map (·.name)).Nodup := by
  rw [successorParameters_names]
  refine List.nodup_append.mpr ⟨valueNames_nodup columnsDistinct, ?_, ?_⟩
  · refine List.nodup_cons.mpr ⟨?_, keyNames_nodup distinct⟩
    intro member
    obtain ⟨name, -, same⟩ := List.mem_map.mp member
    exact keyName_ne_nowName same
  · intro first firstMember second secondMember
    obtain ⟨column, -, rfl⟩ := List.mem_map.mp firstMember
    rcases List.mem_cons.mp secondMember with rfl | key
    · exact valueName_ne_nowName
    · obtain ⟨other, -, rfl⟩ := List.mem_map.mp key
      exact keyName_ne_valueName.symm

theorem successorItems_scoped {known : List String}
    (accepted : ∀ column ∈ (successorItems e opening columns).map Prod.fst, column ∈ known) :
    ∀ item ∈ successorItems e opening columns,
      item.2.isScoped known ((successorParameters columns data now keys).map (·.name)) = true := by
  intro item member
  have known := accepted item.1 (List.mem_map.mpr ⟨item, member, rfl⟩)
  rw [successorParameters_names]
  rcases List.mem_append.mp member with selected | started
  · rcases List.mem_append.mp selected with carried | written
    · obtain ⟨column, -, rfl⟩ := List.mem_map.mp carried
      simpa [Expr.unqualified, Expr.isScoped] using known
    · obtain ⟨a, a_member, rfl⟩ := List.mem_map.mp written
      have bound : valueName a.columnName ∈ (columns.map (·.columnName)).map valueName :=
        List.mem_map_of_mem (List.mem_map_of_mem a_member)
      simp only [placeholder, Expr.isScoped, List.contains_eq_mem, decide_eq_true_eq]
      exact List.mem_append_left _ bound
  · rw [List.mem_singleton.mp started]
    simp [nowPlaceholder, Expr.isScoped]

/-- Starting the next version adds one for each row with the keys. -/
theorem successor_execute? (accepted : (db e.table).accepts ((successorItems e opening columns).map Prod.fst))
    (keysKnown : ∀ a ∈ keys.map Prod.fst, a.columnName ∈ (db e.table).columns) :
    (successor e opening columns keys).execute? c (successorParameters columns data now keys) db =
      some (Function.update db e.table { db e.table with
          rows := (db e.table).rows ++
            ((db e.table).rows.filter
              (hasKeys c (keys.map Prod.fst) (successorParameters columns data now keys))).map
                (succeeding c e opening columns (successorParameters columns data now keys)) },
        (db e.table).rows.countP
          (hasKeys c (keys.map Prod.fst) (successorParameters columns data now keys))) := by
  have nameBound : ∀ a ∈ keys.map Prod.fst, keyName a.columnName ∈
      (successorParameters columns data now keys).map (·.name) := by
    intro a member
    rw [successorParameters_names]
    exact List.mem_append_right _
      (List.mem_cons_of_mem _ (List.mem_map_of_mem (List.mem_map_of_mem member)))
  have admitted : (successorSource e opening columns (keys.map Prod.fst)).admitsRecord c
      (successorParameters columns data now keys) =
        hasKeys c (keys.map Prod.fst) (successorParameters columns data now keys) := by
    funext record
    rw [Statement.admitsRecord, admits_predicates rfl, all_pin_holds]
  have inserted : (successor e opening columns keys).insertedTuples? c
      (successorParameters columns data now keys) db =
        some (((db e.table).rows.filter
          (hasKeys c (keys.map Prod.fst) (successorParameters columns data now keys))).map fun record =>
            (successorSource e opening columns (keys.map Prod.fst)).selected.map
              (·.expr.eval c (.ofRecord (successorParameters columns data now keys) record))) := by
    rw [successor_eq, ← admitted]
    refine Statement.sourceTuples?_single (s := successorSource e opening columns (keys.map Prod.fst))
      rfl rfl (pins_scoped keysKnown nameBound) ?_
    simp only [successorSource, List.all_map, List.all_eq_true]
    exact fun item member => successorItems_scoped accepted.2 item member
  rw [Statement.execute?_insert e.table (by rw [successor_eq]; rfl) (by rw [successor_eq]; rfl)
    inserted (by rw [successor_eq]; exact accepted)]
  · simp only [List.map_map, List.length_map, List.countP_eq_length_filter, successor_eq,
      successorSource, Function.comp_def, List.zip_map']
    rfl
  · intro tuple member
    obtain ⟨record, -, rfl⟩ := List.mem_map.mp member
    simp only [successor_eq, successorSource, List.length_map]

end Successor

end Planning

end ViewEngine
