import ViewEngine.Proofs.Assembly.Identified
import ViewEngine.Proofs.Counting.Standing

/-!
What a count over a collection comes to. All collections that are counted are joined into one statement, and a row of
one of them is counted once for each way in which the other joins extend its root row.
-/

namespace ViewEngine

open Sql Compile

namespace Entity

def isOfType (c : Collation) (e : Entity) (record : Record) : Bool :=
  (e.discriminatorConstraint? 0).all (·.holds c (.ofRow record))

/-- Stored rows that are told apart by their keys, none of which is null. -/
structure AreKeyed (e : Entity) (c : Collation) (records : List Record) : Prop where
  stored : ∀ r ∈ records, ∀ column, (r column).isStored = true
  distinct : records.Nodup
  held : ∀ r ∈ records, ∀ key ∈ e.storageKeys, (r key.columnName).isNull = false
  unique : ∀ r ∈ records, ∀ other ∈ records,
    (∀ key ∈ e.storageKeys, (c.equal (r key.columnName) (other key.columnName)).holds = true) → r = other

end Entity

namespace Attribute

def relates (c : Collation) (a : Attribute) (row other : Record) : Bool :=
  a.joinColumns.all fun pair => (c.equal (row pair.source) (other pair.target)).holds

/-- The stored rows that an association leads to, in the version that is read. -/
def associated (c : Collation) (db : Database) (pointInTime : Option Timestamp) (a : Attribute) (target : Entity)
    (row : Record) : List Record :=
  (db (joinedTable a target)).rows.filter fun other =>
    a.relates c row other && (target.isRead c pointInTime other && target.isOfType c other)

end Attribute

section Conditions

variable {c : Collation} {db : Database} {e target : Entity} {a : Attribute} {frame : Frame} {table source : Nat}
  {pointInTime : Option Timestamp} {setting : Setting}

theorem Entity.holds_versionConstraint? :
    (e.versionConstraint? pointInTime table).all (·.holds c frame) = e.isRead c pointInTime (frame.rows table) := by
  unfold isRead versionConstraint?
  cases e.version with
  | none => rfl
  | some version =>
      cases opening : version.opening.column <;> cases closing : version.closing.column <;> cases pointInTime <;>
        simp [opening, closing, Expr.holds, Expr.eval, Expr.conjoined, Expr.disjoined, Expr.isNull, Expr.atMost,
          Expr.greater, ColumnType.literal, Frame.ofRow]

theorem Entity.holds_discriminatorConstraint? :
    (e.discriminatorConstraint? table).all (·.holds c frame) = e.isOfType c (frame.rows table) := by
  unfold isOfType discriminatorConstraint?
  cases e.discriminator with
  | none => rfl
  | some d =>
      dsimp only
      cases d.subject.column with
      | none => rfl
      | some name => simp only [Option.map_some, Option.all_some, Expr.holds_equals, Expr.eval_columnOf,
          ColumnType.literal, Expr.eval, Frame.ofRow]

theorem holds_joinCondition : (joinCondition setting a target source table).holds c frame =
    (a.relates c (frame.rows source) (frame.rows table) &&
      (target.isRead c setting.pointInTime (frame.rows table) && target.isOfType c (frame.rows table))) := by
  have conjoined (predicates : List Expr) :
      ((Expr.conjunction? predicates).getD (.literal (.boolean true))).holds c frame =
        predicates.all (Expr.holds c frame) := by
    cases found : Expr.conjunction? predicates with
    | some joined => exact Expr.holds_conjunction? c frame found
    | none =>
        cases predicates with
        | nil => rfl
        | cons => contradiction
  have optional (predicate? : Option Expr) :
      predicate?.toList.all (Expr.holds c frame) = predicate?.all (·.holds c frame) := by
    cases predicate? <;> simp
  have mapped : (a.joinColumns.map fun pair =>
      (Expr.columnOf source pair.source).equals (.columnOf table pair.target)).all (Expr.holds c frame) =
        a.relates c (frame.rows source) (frame.rows table) := by
    simp only [List.all_map, Attribute.relates, Function.comp_def, Expr.holds_equals, Expr.eval_columnOf]
  unfold joinCondition
  dsimp only
  rw [conjoined, List.all_append, List.all_append, mapped, optional, optional, Entity.holds_versionConstraint?,
    Entity.holds_discriminatorConstraint?]

theorem fitting_eq {j : JoinEntry} (built : j.IsBuilt setting) (frame : Frame) : j.join.fitting c db frame =
    j.subject.associated c db setting.pointInTime j.entity (frame.rows j.source) := by
  have number : j.join.table.number = some j.table := by rw [built.join]
  have condition : j.join.condition = joinCondition setting j.subject j.entity j.source j.table := by rw [built.join]
  have name : j.join.table.table = joinedTable j.subject j.entity := by rw [built.join]
  rw [Join.fitting, Attribute.associated, name, condition]
  refine List.filter_congr fun record _ => ?_
  rw [holds_joinCondition, Frame.bind_rows_self number, Frame.bind_rows_of_ne number (Nat.ne_of_lt built.earlier)]

end Conditions

section Counts

variable {registry : Registry} {settings : ViewSettings} {dialect : Dialect} {pointInTime : Option Timestamp}
  {page : Page} {t : FilterTree} {v : CompiledView} {c : Collation} {db : Database} {parameters : String → Value}
  {p : Projection} {x : Reached} {group : List Frame} {f g : Frame}

theorem get?_resultOfGroup (addressable : Setting.IsAddressable ⟨registry, pointInTime⟩ t.roots)
    (compiled : compile registry settings dialect pointInTime page t = .ok v) (member : p ∈ v.projections)
    (group : List Frame) :
    (v.primary.resultOfGroup c group).get? p.binding.label = some (p.expr.evalGroup c group) := by
  obtain ⟨⟨-, columns, -⟩, -⟩ := compile_selects addressable compiled
  have labels : (v.projections.map (·.binding.label)).Nodup := by
    rw [show v.projections = Part.projections ⟨"", v.primary, v.columns⟩ from rfl, columns]
    refine nodup_putColumns ?_ _
    exact List.nodup_singleton _
  have entries : v.primary.selected.filterMap
      (fun item => item.label.map fun label => (label, item.expr.evalGroup c group)) =
        v.projections.map fun p => (p.binding.label, p.expr.evalGroup c group) := by
    rw [(compile_isGrouped compiled).selected, List.filterMap_map, ← List.filterMap_eq_map]
    rfl
  rw [Statement.resultOfGroup, entries]
  refine Keyed.get?_ofList (List.mem_map.mpr ⟨p, member, rfl⟩) fun other inside => ?_
  obtain ⟨q, among, same⟩ := List.mem_map.mp inside
  obtain ⟨label, rfl⟩ := Prod.mk.inj same
  rw [List.inj_on_of_nodup_map labels among member label]

theorem rows_of_alike (keyed : ∀ key ∈ t.root.storageKeys, .columnOf 0 key.columnName ∈ v.primary.grouping)
    (stored : t.root.AreKeyed c (db t.root.table).rows) (first : f.rows 0 ∈ (db t.root.table).rows)
    (second : g.rows 0 ∈ (db t.root.table).rows) (alike : v.primary.alike c f g = true) : g.rows 0 = f.rows 0 := by
  refine (stored.unique _ first _ second fun key member => ?_).symm
  have same := List.all_eq_true.mp alike _ (keyed key member)
  exact Collation.equal_of_alike same (stored.held _ first key member)

/-- In a group whose rows extend one row, the rows that an association leads to from there are counted once for each row
that the group would have without them. -/
theorem countIn_groupOf {j : JoinEntry} (built : j.IsBuilt ⟨registry, pointInTime⟩)
    (loose : v.primary.IsLoose j.join j.table)
    (held : ∀ record ∈ (db (joinedTable j.subject j.entity)).rows, (record j.entity.countedColumn).isNull = false)
    (same : ∀ g ∈ (v.primary.withoutTable j.table).groupOf c db parameters f, g.rows j.source = f.rows j.source) :
    (Expr.wholeRow j.table j.entity.countedColumn).countIn c (v.primary.groupOf c db parameters f) =
      (j.subject.associated c db pointInTime j.entity (f.rows j.source)).length *
        ((v.primary.withoutTable j.table).groupOf c db parameters f).length := by
  have each : ∀ g ∈ (v.primary.withoutTable j.table).groupOf c db parameters f,
      (j.join.fitting c db g).length = (j.subject.associated c db pointInTime j.entity (f.rows j.source)).length := by
    intro g among
    rw [fitting_eq built, same g among]
  have all : ∀ record ∈ ((v.primary.withoutTable j.table).groupOf c db parameters f).flatMap (j.join.fitting c db),
      (!(record j.entity.countedColumn).isNull) = true := by
    intro record member
    obtain ⟨g, -, fits⟩ := List.mem_flatMap.mp member
    rw [Join.fitting, built.join] at fits
    rw [held record (List.mem_filter.mp fits).1]
    rfl
  rw [loose.countIn_group, List.countP_eq_length.mpr all, List.length_flatMap, List.map_congr_left each,
    List.map_const', List.sum_replicate_nat, Nat.mul_comm]

section Products

theorem Collation.alike_self {v : Value} (stored : v.isStored = true) : c.alike v v = true := by
  unfold alike
  cases null : v.isNull with
  | true => rfl
  | false => exact (Bool.or_eq_true _ _).mpr (.inr (Collation.equal_holds_iff.mpr ⟨null, null, c.order_self stored⟩))

theorem Entity.isStored_rootKey {e : Entity} {delimiter : String}
    (stored : ∀ column, (f.rows 0 column).isStored = true) : ((e.rootKey delimiter).eval c f).isStored = true := by
  have joined (a b : Value) : (c.joinedText a b).isStored = true := by
    unfold Collation.joinedText
    split <;> rfl
  have cast (v : Value) : (c.castText v).isStored = true := by
    unfold Collation.castText
    split <;> rfl
  have folded (columns : List String) (first : Expr) (held : (first.eval c f).isStored = true) :
      ((columns.foldl (fun joined column =>
        (joined.concatenated (.string delimiter)).concatenated (.castText (.columnOf 0 column))) first).eval c
          f).isStored = true := by
    induction columns generalizing first with
    | nil => exact held
    | cons column rest ih => exact ih _ (joined _ _)
  unfold rootKey
  split
  · exact stored _
  · cases found : joinedKeys delimiter _ with
    | none => rfl
    | some expr =>
        unfold joinedKeys at found
        split at found
        · contradiction
        · cases found
          exact folded _ _ (cast _)

variable (addressable : Setting.IsAddressable ⟨registry, pointInTime⟩ t.roots)
  (comparable : Setting.IsComparable ⟨registry, pointInTime⟩)
  (compiled : compile registry settings dialect pointInTime page t = .ok v)
  (counts : ∀ x ∈ reachedFrom registry v.joinPlan t, x.isJoined = true → x.item.aggregate.isSome = true)

include addressable compiled counts

theorem alike_self (stored : ∀ column, (f.rows 0 column).isStored = true) : v.primary.alike c f f = true := by
  refine List.all_eq_true.mpr fun expr member => Collation.alike_self ?_
  rw [(compile_isGrouped compiled).grouping] at member
  split at member
  · obtain ⟨p, plain, rfl⟩ := List.mem_map.mp member
    obtain ⟨isColumn, plain⟩ := List.mem_filter.mp plain
    rcases projection_cases addressable compiled isColumn with rfl | ⟨name, b, rfl, -⟩ | ⟨x, reached, offers⟩
    · exact Entity.isStored_rootKey stored
    · exact stored name
    · cases offers with
      | count => contradiction
      | here column =>
          rw [Expr.eval_columnOf, (RestsOn.node reached).eq_zero counts]
          exact stored column
      | joined column _ uncounted single isTarget =>
          rw [Expr.eval_columnOf, (RestsOn.joined reached uncounted single isTarget).eq_zero counts]
          exact stored column
  · contradiction

include comparable

/-- Where nothing but collections is joined, each of them gives a group as many rows as a root row has there, or one
row if it has none. -/
theorem length_groupOf_withoutTable
    (keyed : ∀ key ∈ t.root.storageKeys, .columnOf 0 key.columnName ∈ v.primary.grouping)
    (stored : t.root.AreKeyed c (db t.root.table).rows) (isFrame : f ∈ v.primary.frames c db parameters)
    (table : Nat) :
    ((v.primary.withoutTable table).groupOf c db parameters f).length =
      ((v.primary.withoutTable table).joins.map fun join => max 1 (join.fitting c db f).length).prod := by
  obtain ⟨built, -⟩ := compile_made addressable compiled
  have numbers : ∀ join ∈ v.primary.joins, join.table.number ≠ none ∧ join.table.number ≠ some 0 :=
    fun join => join_number addressable compiled
  have tables := primary_tables compiled
  obtain ⟨isRoot, agree⟩ := Statement.agreeOn_of_mem_frames tables numbers isFrame
  let begun (record : Record) : Frame := Statement.beginning t.root.table 0 parameters record
  have rows (record : Record) : (begun record).rows 0 = record := Frame.bind_rows_self rfl _ _
  have conditions : ∀ n ∈ v.primary.conditions.flatMap (·.tables), n = 0 :=
    fun n mentioned => (condition_rests compiled n mentioned).eq_zero counts
  have grouping : ∀ n ∈ v.primary.grouping.flatMap (·.tables), n = 0 :=
    fun n mentioned => (grouping_rests addressable compiled n mentioned).eq_zero counts
  have admitted : v.primary.admits c (begun (f.rows 0)) = true := by
    rw [← Statement.admits_congr (agree.mono fun n mentioned => List.mem_singleton.mpr (conditions n mentioned))]
    exact (List.mem_filter.mp isFrame).2
  have alike : ∀ other ∈ (db t.root.table).rows, v.primary.alike c f (begun other) = true ↔ other = f.rows 0 := by
    intro other member
    constructor
    · intro alike
      have same := rows_of_alike keyed stored isRoot (by rwa [rows]) alike
      rwa [rows] at same
    · rintro rfl
      rw [← Statement.alike_congr f (agree.mono fun n mentioned => List.mem_singleton.mpr (grouping n mentioned))]
      exact alike_self addressable compiled counts (stored.stored _ isRoot)
  rw [Statement.length_groupOf (s := v.primary.withoutTable table) tables
    (fun join member => numbers join (List.mem_filter.mp member).1)
    ((joins_apart addressable comparable compiled counts).filter _) conditions grouping stored.distinct isRoot admitted
    alike]
  refine congrArg List.prod (List.map_congr_left fun join member => ?_)
  obtain ⟨x, reached, j, entry, rfl⟩ := primary_entry addressable compiled (List.mem_filter.mp member).1
  have source : j.source = 0 := entry.source.trans ((RestsOn.node reached).eq_zero counts)
  have isBuilt := built.entries j entry.member
  have fitting : j.join.fitting c db (begun (f.rows 0)) = j.join.fitting c db f := by
    rw [fitting_eq isBuilt, fitting_eq isBuilt, source, rows]
  have outer : j.join.kind = .leftOuter := by rw [isBuilt.join]
  rw [Join.partners, outer, fitting]
  cases j.join.fitting c db f <;> simp

end Products

theorem keyed_of_single (addressable : Setting.IsAddressable ⟨registry, pointInTime⟩ t.roots)
    (compiled : compile registry settings dialect pointInTime page t = .ok v) {key : Attribute} {column : String}
    (identity : t.root.identityKeys = [key]) (unversioned : t.root.version = none) (stored : key.column = some column)
    (member : p ∈ v.projections) (counted : p.binding.kind = .aggregate) :
    ∀ key ∈ t.root.storageKeys, .columnOf 0 key.columnName ∈ v.primary.grouping := by
  obtain ⟨⟨-, columns, -⟩, -⟩ := compile_selects addressable compiled
  have isColumn : (Root.ofTree settings t).keyColumn ∈ v.projections := by
    rw [show v.projections = Part.projections ⟨"", v.primary, v.columns⟩ from rfl, columns]
    exact (putColumns_grow _ _).subset (List.mem_singleton_self _)
  have rootKey : t.root.rootKey settings.keyDelimiter = .columnOf 0 column := by
    simp [Entity.rootKey, identity, stored]
  intro other isKey
  rw [Entity.storageKeys, identity, unversioned, Option.map_none, Option.toList_none, List.append_nil,
    List.mem_singleton] at isKey
  have aggregated : v.projections.any (·.binding.kind == .aggregate) = true :=
    List.any_eq_true.mpr ⟨p, member, beq_iff_eq.mpr counted⟩
  rw [(compile_isGrouped compiled).grouping, if_pos aggregated, isKey, Attribute.columnName, stored]
  exact List.mem_map.mpr ⟨_, List.mem_filter.mpr ⟨isColumn, rfl⟩, rootKey⟩

/-- Counts over collections of the roots are multiplied. In a row of the result, the count of a collection is that of
its rows times that of the rows that the group would have if the collection were not joined. These are, where nothing
but collections is joined, as many as there are choices of one row from each of the others that has any. -/
theorem counts_are_multiplied (addressable : Setting.IsAddressable ⟨registry, pointInTime⟩ t.roots)
    (comparable : Setting.IsComparable ⟨registry, pointInTime⟩)
    (compiled : compile registry settings dialect pointInTime page t = .ok v)
    (counting : ∀ x ∈ reachedFrom registry v.joinPlan t, x.item.aggregate.isSome = true →
      x.item.aggregate = some .count ∧ x.table = 0 ∧ x.subject.isCollection = true)
    (keyed : ∀ key ∈ t.root.storageKeys, .columnOf 0 key.columnName ∈ v.primary.grouping)
    (stored : t.root.AreKeyed c (db t.root.table).rows)
    (held : ∀ x ∈ reachedFrom registry v.joinPlan t, x.item.aggregate.isSome = true → ∀ target,
      registry.targetOf x.subject = .ok target → ∀ record ∈ (db (joinedTable x.subject target)).rows,
        (record target.countedColumn).isNull = false)
    (isGroup : group ∈ v.primary.groups c db parameters) (member : p ∈ v.projections)
    (counted : p.binding.kind = .aggregate) :
    ∃ f ∈ v.primary.frames c db parameters, group = v.primary.groupOf c db parameters f ∧
      f.rows 0 ∈ (db t.root.table).rows ∧ (∀ g ∈ group, g.rows 0 = f.rows 0) ∧
      ∃ x ∈ reachedFrom registry v.joinPlan t, ∃ target, x.item.aggregate = some .count ∧
        x.alias = p.binding.label ∧ registry.targetOf x.subject = .ok target ∧
        (let others := v.primary.withoutTable (v.joinPlan.tableAt x.path x.subject)
        (v.primary.resultOfGroup c group).get? p.binding.label =
            some (.int (.ofNat ((x.subject.associated c db pointInTime target (f.rows 0)).length *
              (others.groupOf c db parameters f).length))) ∧
          ((∀ y ∈ reachedFrom registry v.joinPlan t, y.isJoined = true → y.item.aggregate.isSome = true) →
            (others.groupOf c db parameters f).length =
              (others.joins.map fun join => max 1 (join.fitting c db f).length).prod)) := by
  obtain ⟨built, -⟩ := compile_made addressable compiled
  obtain ⟨f, isFrame, rfl⟩ := Statement.exists_of_mem_groups isGroup
  have numbers : ∀ join ∈ v.primary.joins, join.table.number ≠ none ∧ join.table.number ≠ some 0 :=
    fun join => join_number addressable compiled
  have tables := primary_tables compiled
  have isRoot := (Statement.agreeOn_of_mem_frames tables numbers isFrame).1
  refine ⟨f, isFrame, rfl, isRoot, fun g among => ?_, ?_⟩
  · obtain ⟨isFrame, alike⟩ := List.mem_filter.mp among
    exact rows_of_alike keyed stored isRoot (Statement.agreeOn_of_mem_frames tables numbers isFrame).1 alike
  rcases projection_cases addressable compiled member with rfl | ⟨name, b, rfl, plain⟩ | ⟨x, reached, offers⟩
  · contradiction
  · rw [plain] at counted
    contradiction
  cases offers with
  | here _ plain | joined _ plain =>
      rw [plain] at counted
      contradiction
  | @count aggregate target isCounted isTarget =>
      have isSome : x.item.aggregate.isSome = true := by rw [isCounted]; rfl
      obtain ⟨isCount, zero, collection⟩ := counting x reached isSome
      obtain rfl : aggregate = .count := Option.some.inj (isCounted.symm.trans isCount)
      refine ⟨x, reached, target, isCount, rfl, isTarget, ?_, fun counts => length_groupOf_withoutTable addressable
        comparable compiled counts keyed stored isFrame _⟩
      obtain ⟨j, entry⟩ := (reached_stands addressable compiled reached).2 (by rw [Reached.isJoined, isSome]; rfl)
      have isBuilt := built.entries j entry.member
      obtain rfl : j.entity = target := Except.ok.inj (entry.isTarget.symm.trans isTarget)
      have table := entry.tableAt
      have joined := join_mem_of_selected addressable comparable compiled entry member
        (by simp [Expr.tables, Expr.tablesOfEach, table])
      have loose := counted_isLoose addressable comparable compiled entry collection joined
      have source : j.source = 0 := entry.source.trans zero
      rw [get?_resultOfGroup addressable compiled member, Expr.evalGroup_count, table, countIn_groupOf isBuilt loose,
        entry.subject, source]
      · intro record among
        rw [entry.subject] at among
        exact held x reached isSome _ isTarget record among
      · intro g among
        obtain ⟨isFrame, alike⟩ := List.mem_filter.mp among
        rw [source]
        have isRow := Statement.agreeOn_of_mem_frames (s := v.primary.withoutTable j.table) tables
          (fun join member => numbers join (List.mem_filter.mp member).1) isFrame
        exact rows_of_alike keyed stored isRoot isRow.1 alike

end Counts

namespace Outline

def tallied : Outline where
  definitions := [
    entity "Order" "orders" [column "id" "id" .bigInt true,
      association "lines" "Line" "line" "id" "order_id" true,
      association "notes" "Note" "note" "id" "order_id" true],
    entity "Line" "line" [column "id" "id" .bigInt true, column "order" "order_id" .bigInt false],
    entity "Note" "note" [column "id" "id" .bigInt true, column "order" "order_id" .bigInt false]]
  roots := ["Order"]
  chains := [counts "Order" ["lines"], counts "Order" ["notes"]]

def ofOrder (order id : Int64) : Record :=
  fun column => if column = "id" then .int id else if column = "order_id" then .int order else .null

theorem isStored_ofOrder (order id : Int64) (column : String) : (ofOrder order id column).isStored = true := by
  unfold ofOrder
  split
  · rfl
  · split <;> rfl

def stock : Database := fun table =>
  if table = "orders" then ⟨["id"], [ofOrder 0 1]⟩
  else if table = "line" then ⟨["id", "order_id"], [ofOrder 1 1, ofOrder 1 2, ofOrder 2 3]⟩
  else ⟨["id", "order_id"], [ofOrder 1 1, ofOrder 1 2, ofOrder 1 3]⟩

def countsLines (registry : Registry) (t : FilterTree) (v : CompiledView) : Bool :=
  (reachedFrom registry v.joinPlan t).all fun x =>
    x.item.aggregate == some .count && x.table == 0 && x.subject.isCollection &&
      (registry.targetOf x.subject).toOption.all fun target =>
        (stock (joinedTable x.subject target)).rows.all (fun record => !(record target.countedColumn).isNull) &&
          (x.alias != "lines" || (x.subject.associated .standard stock none target (ofOrder 0 1)).length == 2)

def findsSix (v : CompiledView) : Bool :=
  (v.projections.any fun p => p.binding.label == "lines" && p.binding.kind == .aggregate) &&
    (v.primary.groups .standard stock (fun _ => .null)).any fun group =>
      (v.primary.resultOfGroup .standard group).get? "lines" == some (.int 6)

set_option maxRecDepth 100000 in
/-- The two lines of the order are counted for each of its three notes. -/
theorem lines_are_multiplied : ∃ registry t v group, tallied.compiled? = some (registry, t, v) ∧
    group ∈ v.primary.groups .standard stock (fun _ => .null) ∧
    (v.primary.resultOfGroup .standard group).get? "lines" = some (.int 6) ∧
    ∃ f ∈ v.primary.frames .standard stock (fun _ => .null),
      group = v.primary.groupOf .standard stock (fun _ => .null) f ∧ f.rows 0 ∈ (stock t.root.table).rows ∧
      (∀ g ∈ group, g.rows 0 = f.rows 0) ∧
      ∃ x ∈ reachedFrom registry v.joinPlan t, ∃ target, x.item.aggregate = some .count ∧ x.alias = "lines" ∧
        registry.targetOf x.subject = .ok target ∧
        (x.subject.associated .standard stock none target (f.rows 0)).length = 2 ∧
        let others := v.primary.withoutTable (v.joinPlan.tableAt x.path x.subject)
        (v.primary.resultOfGroup .standard group).get? "lines" =
            some (.int (.ofNat ((x.subject.associated .standard stock none target (f.rows 0)).length *
              (others.groupOf .standard stock (fun _ => .null) f).length))) ∧
          (others.groupOf .standard stock (fun _ => .null) f).length =
            (others.joins.map fun join => max 1 (join.fitting .standard stock f).length).prod := by
  have checked : (tallied.compiled?.map fun found => found.2.1.otherRoots.isEmpty &&
      decide (∀ e ∈ found.2.1.roots ++ found.1.all, ∀ a ∈ e.attributes, a.isAssociation = true → IsStep a.property) &&
      found.1.all.all (·.discriminator.isNone) && found.2.1.root.table == "orders" &&
      found.2.1.root.identityKeys.map (·.column) == [some "id"] && found.2.1.root.version.isNone &&
      countsLines found.1 found.2.1 found.2.2 && findsSix found.2.2) = some true := by
    decide +kernel
  obtain ⟨⟨registry, t, v⟩, found, checked⟩ := Option.map_eq_some_iff.mp checked
  simp only [Bool.and_eq_true, decide_eq_true_eq, beq_iff_eq] at checked
  obtain ⟨⟨⟨⟨⟨⟨⟨single, steps⟩, plain⟩, table⟩, identity⟩, unversioned⟩, reached⟩, six⟩ := checked
  obtain ⟨selected, grouped⟩ := Bool.and_eq_true_iff.mp six
  obtain ⟨-, -, compiled⟩ := compiled_eq found
  have addressable : Setting.IsAddressable ⟨registry, none⟩ t.roots := ⟨steps, areAgreed_of_isEmpty single⟩
  obtain ⟨p, isColumn, kind⟩ := List.any_eq_true.mp selected
  obtain ⟨label, counted⟩ := Bool.and_eq_true_iff.mp kind
  rw [beq_iff_eq] at label counted
  obtain ⟨key, isKey, stored⟩ := List.map_eq_singleton_iff.mp identity
  obtain ⟨group, isGroup, six⟩ := List.any_eq_true.mp grouped
  have each : ∀ x ∈ reachedFrom registry v.joinPlan t, x.item.aggregate = some .count ∧ x.table = 0 ∧
      x.subject.isCollection = true ∧ ∀ target, registry.targetOf x.subject = .ok target →
        (∀ record ∈ (stock (joinedTable x.subject target)).rows, (record target.countedColumn).isNull = false) ∧
          (x.alias = "lines" → (x.subject.associated .standard stock none target (ofOrder 0 1)).length = 2) := by
    intro x inside
    have holds := List.all_eq_true.mp reached x inside
    simp only [Bool.and_eq_true, beq_iff_eq] at holds
    obtain ⟨⟨⟨isCount, zero⟩, collection⟩, further⟩ := holds
    refine ⟨isCount, zero, collection, fun target isTarget => ?_⟩
    rw [isTarget] at further
    obtain ⟨held, two⟩ := Bool.and_eq_true_iff.mp further
    refine ⟨fun record among => by simpa using List.all_eq_true.mp held record among, fun lines => ?_⟩
    simpa [lines] using two
  have only : (stock t.root.table).rows = [ofOrder 0 1] := by rw [table]; rfl
  have keys : t.root.AreKeyed .standard (stock t.root.table).rows := by
    rw [only]
    refine ⟨fun r member column => ?_, List.nodup_singleton _, fun r member key inside => ?_,
      fun r member other again _ => ?_⟩
    · rw [List.mem_singleton.mp member]
      exact isStored_ofOrder ..
    · rw [Entity.storageKeys, isKey, Option.isNone_iff_eq_none.mp unversioned, Option.map_none, Option.toList_none,
        List.append_nil, List.mem_singleton] at inside
      rw [inside, List.mem_singleton.mp member, Attribute.columnName, stored]
      rfl
    · rw [List.mem_singleton.mp member, List.mem_singleton.mp again]
  obtain ⟨f, isFrame, isGroupOf, isRoot, same, x, inside, target, isCount, named, isTarget, value, choices⟩ :=
    counts_are_multiplied addressable (isComparable_of_all plain) compiled
      (fun x inside _ => ⟨(each x inside).1, (each x inside).2.1, (each x inside).2.2.1⟩)
      (keyed_of_single addressable compiled isKey (Option.isNone_iff_eq_none.mp unversioned) stored isColumn counted)
      keys (fun x inside _ target isTarget => ((each x inside).2.2.2 target isTarget).1) isGroup isColumn counted
  rw [label] at named value
  have two := ((each x inside).2.2.2 target isTarget).2 named
  rw [only, List.mem_singleton] at isRoot
  rw [← isRoot] at two
  refine ⟨registry, t, v, group, found, isGroup, ?_, f, isFrame, isGroupOf, ?_, same, x, inside, target, isCount, named,
    isTarget, two, value, choices fun y inside _ => by rw [(each y inside).1]; rfl⟩
  · exact beq_iff_eq.mp six
  · rw [only, isRoot]
    exact List.mem_singleton_self _

end Outline

end ViewEngine
