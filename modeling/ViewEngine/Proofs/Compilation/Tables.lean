import ViewEngine.Proofs.Versions.Interval
import ViewEngine.View.Compile

namespace ViewEngine

namespace Sql

mutual

def Expr.tables : Expr → List Nat
  | .column table _ => table.toList
  | .literal _ => []
  | .parameter _ => []
  | .binary _ left right => left.tables ++ right.tables
  | .negation operand => operand.tables
  | .function _ arguments => Expr.tablesOfEach arguments
  | .castText operand => operand.tables
  | .membership operand values _ => operand.tables ++ Expr.tablesOfEach values
  | .nullTest operand _ => operand.tables
  | .star table => table.toList
  | .wholeRow table _ => [table]
  | .parenthesis inner => inner.tables

def Expr.tablesOfEach : List Expr → List Nat
  | [] => []
  | expr :: rest => expr.tables ++ Expr.tablesOfEach rest

end

def Condition.tables : Condition → List Nat
  | .predicate expr => expr.tables
  | .mark _ => []

def Join.introduced (joins : List Join) : List Nat :=
  0 :: joins.filterMap (·.table.number)

def Join.AreOrdered (joins : List Join) : Prop :=
  ∀ i x, joins[i]? = some x → ∃ number, x.table.number = some number ∧
    number ∉ introduced (joins.take i) ∧ ∀ n ∈ x.condition.tables, n = number ∨ n ∈ introduced (joins.take i)

def Statement.mentioned (s : Statement) : List Nat :=
  s.selected.flatMap (·.expr.tables) ++ s.conditions.flatMap (·.tables) ++ s.grouping.flatMap (·.tables) ++
    s.orderings.flatMap (·.expr.tables)

/-- A statement that introduces each table once, before it mentions it. -/
structure Statement.IsScoped (s : Statement) : Prop where
  start : s.tables.map (·.number) = [some 0]
  joins : Join.AreOrdered s.joins
  mentioned : ∀ n ∈ s.mentioned, n ∈ Join.introduced s.joins

instance (joins : List Join) : Decidable (Join.AreOrdered joins) :=
  decidable_of_iff (∀ i : Fin joins.length, ∃ number ∈ (joins.get i).table.number.toList,
      number ∉ Join.introduced (joins.take i) ∧
        ∀ n ∈ (joins.get i).condition.tables, n = number ∨ n ∈ Join.introduced (joins.take i)) (by
    constructor
    · intro each i x found
      obtain ⟨within, rfl⟩ := List.getElem?_eq_some_iff.mp found
      obtain ⟨number, isNumber, holds⟩ := each ⟨i, within⟩
      exact ⟨number, Option.mem_toList.mp isNumber, holds⟩
    · intro ordered i
      obtain ⟨number, isNumber, holds⟩ := ordered i _ (List.getElem?_eq_getElem i.isLt)
      exact ⟨number, Option.mem_toList.mpr isNumber, holds⟩)

instance (s : Statement) : Decidable s.IsScoped :=
  decidable_of_iff (s.tables.map (·.number) = [some 0] ∧ Join.AreOrdered s.joins ∧
      ∀ n ∈ s.mentioned, n ∈ Join.introduced s.joins)
    ⟨fun ⟨start, joins, mentioned⟩ => ⟨start, joins, mentioned⟩,
      fun within => ⟨within.start, within.joins, within.mentioned⟩⟩

section Tables

variable {table n : Nat} {name : String} {left right e : Expr} {joins : List Join} {x : Join}

@[simp] theorem Expr.tables_columnOf : (Expr.columnOf table name).tables = [table] :=
  rfl

@[simp] theorem Expr.tables_equals : (left.equals right).tables = left.tables ++ right.tables :=
  rfl

@[simp] theorem Expr.tables_parenthesized : e.parenthesized.tables = e.tables := by
  cases e <;> rfl

@[simp] theorem Expr.tables_asConjunct : e.asConjunct.tables = e.tables := by
  unfold Expr.asConjunct
  split
  · exact Expr.tables_parenthesized
  · rfl

@[simp] theorem Expr.tables_conjoined : (left.conjoined right).tables = left.tables ++ right.tables := by
  rw [Expr.conjoined, Expr.tables, Expr.tables_asConjunct, Expr.tables_asConjunct]

theorem Expr.tables_foldl_conjoined (rest : List Expr) (first : Expr)
    (member : n ∈ (rest.foldl Expr.conjoined first).tables) : n ∈ first.tables ∨ ∃ e ∈ rest, n ∈ e.tables := by
  induction rest generalizing first with
  | nil => exact .inl member
  | cons e rest ih =>
      rcases ih _ member with joined | ⟨other, later, inside⟩
      · rw [Expr.tables_conjoined] at joined
        exact (List.mem_append.mp joined).imp_right fun inside => ⟨e, List.mem_cons_self .., inside⟩
      · exact .inr ⟨other, List.mem_cons_of_mem _ later, inside⟩

theorem Expr.tables_conjunction? {predicates : List Expr} (found : Expr.conjunction? predicates = some e)
    (member : n ∈ e.tables) : ∃ p ∈ predicates, n ∈ p.tables := by
  cases predicates with
  | nil => contradiction
  | cons first rest =>
      cases found
      rcases Expr.tables_foldl_conjoined rest first member with inside | ⟨p, later, inside⟩
      · exact ⟨first, List.mem_cons_self .., inside⟩
      · exact ⟨p, List.mem_cons_of_mem _ later, inside⟩

theorem Expr.tablesOfEach_eq (exprs : List Expr) : Expr.tablesOfEach exprs = exprs.flatMap (·.tables) := by
  induction exprs with
  | nil => rfl
  | cons e rest ih => rw [Expr.tablesOfEach, ih, List.flatMap_cons]

theorem Condition.tables_foldOnto {joined : Option Expr} {next : Connective} {conditions : List Condition}
    (found : Condition.foldOnto joined next conditions = some e) (member : n ∈ e.tables) :
    (∃ left, joined = some left ∧ n ∈ left.tables) ∨ ∃ c ∈ conditions, n ∈ c.tables := by
  induction conditions generalizing joined next with
  | nil => exact .inl ⟨e, found, member⟩
  | cons c rest ih =>
      cases c with
      | mark connective =>
          exact (ih found).imp_right fun ⟨c, later, inside⟩ => ⟨c, List.mem_cons_of_mem _ later, inside⟩
      | predicate expr =>
          rw [Condition.foldOnto.eq_def] at found
          cases joined with
          | none =>
              rcases ih found with ⟨left, same, inside⟩ | ⟨c, later, inside⟩
              · cases same
                rw [Expr.tables_asConjunct] at inside
                exact .inr ⟨_, List.mem_cons_self .., inside⟩
              · exact .inr ⟨c, List.mem_cons_of_mem _ later, inside⟩
          | some left =>
              rcases ih found with ⟨both, same, inside⟩ | ⟨c, later, inside⟩
              · cases same
                rw [Expr.tables, Expr.tables_asConjunct] at inside
                rcases List.mem_append.mp inside with inLeft | inRight
                · exact .inl ⟨left, rfl, inLeft⟩
                · exact .inr ⟨_, List.mem_cons_self .., inRight⟩
              · exact .inr ⟨c, List.mem_cons_of_mem _ later, inside⟩

theorem Join.mem_introduced {number : Nat} (member : x ∈ joins) (found : x.table.number = some number) :
    number ∈ introduced joins :=
  List.mem_cons_of_mem _ (List.mem_filterMap.mpr ⟨x, member, found⟩)

theorem Join.areOrdered_nil : AreOrdered [] := by
  intro i x found
  simp at found

theorem Join.AreOrdered.append (ordered : AreOrdered joins) {number : Nat} (found : x.table.number = some number)
    (fresh : number ∉ introduced joins) (mentions : ∀ n ∈ x.condition.tables, n = number ∨ n ∈ introduced joins) :
    AreOrdered (joins ++ [x]) := by
  intro i y there
  rw [List.getElem?_append] at there
  split at there
  next within =>
    rw [List.take_append_of_le_length (Nat.le_of_lt within)]
    exact ordered i y there
  next beyond =>
    rw [List.getElem?_singleton] at there
    split at there
    next last =>
      cases there
      obtain rfl : i = joins.length := by omega
      rw [List.take_left]
      exact ⟨number, found, fresh, mentions⟩
    next => contradiction

end Tables

end Sql

open Sql

section Constraints

variable {table n : Nat} {e : Entity} {p : Predicate} {type : ColumnType} {column expr : Expr}
  {pointInTime : Option Timestamp}

theorem Predicate.tables_members (p : Predicate) (type : ColumnType) :
    Expr.tablesOfEach (p.members.map type.literal) = [] := by
  rw [Expr.tablesOfEach_eq, List.flatMap_eq_nil_iff]
  intro e member
  obtain ⟨value, -, rfl⟩ := List.mem_map.mp member
  rfl

theorem Predicate.tables_expr (member : n ∈ (p.expr type column).tables) : n ∈ column.tables := by
  have ofTest (inside : n ∈ (p.test type column).tables) : n ∈ column.tables := by
    unfold Predicate.test at inside
    dsimp only at inside
    split at inside <;>
      simpa [Expr.isNull, Expr.isNotNull, Expr.equals, Expr.differs, Expr.greater, Expr.atLeast, Expr.less,
        Expr.atMost, Expr.like, Expr.string, Expr.tables, tables_members, ColumnType.literal] using inside
  unfold Predicate.expr at member
  split at member
  · rw [Expr.disjoined, Expr.tables] at member
    exact (List.mem_append.mp member).elim ofTest id
  · exact ofTest member

theorem Entity.tables_versionConstraint? (found : e.versionConstraint? pointInTime table = some expr)
    (member : n ∈ expr.tables) : n = table := by
  unfold Entity.versionConstraint? at found
  split at found
  · contradiction
  · dsimp only at found
    split at found
    · split at found <;> cases found <;>
        simpa [Expr.isNull, Expr.disjoined, Expr.atMost, Expr.greater, Expr.tables, Expr.columnOf,
          ColumnType.literal] using member
    · contradiction

theorem Entity.tables_discriminatorConstraint? (found : e.discriminatorConstraint? table = some expr)
    (member : n ∈ expr.tables) : n = table := by
  unfold Entity.discriminatorConstraint? at found
  split at found
  · contradiction
  · obtain ⟨name, -, rfl⟩ := Option.map_eq_some_iff.mp found
    simpa [ColumnType.literal, Expr.tables] using member

/-- The condition of a join mentions the two tables that it joins. -/
theorem Compile.tables_joinCondition {setting : Setting} {a : Attribute} {target : Entity} {source : Nat}
    (member : n ∈ (joinCondition setting a target source table).tables) : n = source ∨ n = table := by
  unfold joinCondition at member
  dsimp only at member
  cases found : Expr.conjunction? _ with
  | none =>
      rw [found] at member
      contradiction
  | some condition =>
      rw [found] at member
      obtain ⟨p, among, inside⟩ := Expr.tables_conjunction? found member
      rcases List.mem_append.mp among with mapped | constraint
      · obtain ⟨pair, -, rfl⟩ := List.mem_map.mp mapped
        simpa using inside
      · rcases List.mem_append.mp constraint with version | discriminator
        · exact .inr (Entity.tables_versionConstraint? (Option.mem_toList.mp version) inside)
        · exact .inr (Entity.tables_discriminatorConstraint? (Option.mem_toList.mp discriminator) inside)

theorem Entity.tables_rootKey {delimiter : String} (member : n ∈ (e.rootKey delimiter).tables) : n = 0 := by
  have folded (columns : List String) (first : Expr)
      (inside : n ∈ (columns.foldl (fun joined column =>
        (joined.concatenated (.string delimiter)).concatenated (.castText (.columnOf 0 column))) first).tables) :
      n ∈ first.tables ∨ n = 0 := by
    induction columns generalizing first with
    | nil => exact .inl inside
    | cons column rest ih =>
        rcases ih _ inside with joined | zero
        · simpa [Expr.concatenated, Expr.string, Expr.tables, Expr.columnOf] using joined
        · exact .inr zero
  unfold Entity.rootKey at member
  split at member
  · simpa using member
  · cases found : joinedKeys delimiter _ with
    | none =>
        rw [found] at member
        contradiction
    | some expr =>
        rw [found] at member
        unfold joinedKeys at found
        split at found
        · contradiction
        · cases found
          rcases folded _ _ member with first | zero
          · simpa [Expr.tables, Expr.columnOf] using first
          · exact zero

/-- A statement with further conditions, that mention the first table alone. -/
def Sql.Statement.RestrictedTo (s after : Statement) : Prop :=
  ∃ further, after = { s with conditions := s.conditions ++ further } ∧ ∀ c ∈ further, ∀ n ∈ c.tables, n = 0

theorem Sql.Statement.RestrictedTo.refl (s : Statement) : s.RestrictedTo s :=
  ⟨[], by cases s; simp only [List.append_nil], by simp⟩

theorem Sql.Statement.RestrictedTo.trans {s middle after : Statement} (first : s.RestrictedTo middle)
    (second : middle.RestrictedTo after) : s.RestrictedTo after := by
  obtain ⟨one, rfl, firstZero⟩ := first
  obtain ⟨two, rfl, secondZero⟩ := second
  refine ⟨one ++ two, by simp only [List.append_assoc], fun c member => ?_⟩
  exact (List.mem_append.mp member).elim (firstZero c) (secondZero c)

theorem Sql.Statement.restrictedTo_filter {s : Statement} {predicate : Expr}
    (zero : ∀ n ∈ predicate.tables, n = 0) : s.RestrictedTo (s.filter predicate) := by
  refine ⟨[.predicate predicate], rfl, fun c member => ?_⟩
  rw [List.mem_singleton.mp member]
  exact zero

theorem Entity.tables_subtypeConstraint? {roots : List Entity} {conditions : List Condition}
    (found : subtypeConstraint? roots = some conditions) : ∀ c ∈ conditions, ∀ n ∈ c.tables, n = 0 := by
  obtain ⟨constraints, each, rfl⟩ := Option.map_eq_some_iff.mp found
  have zero : ∀ constraint ∈ constraints, ∀ n ∈ constraint.tables, n = 0 := by
    intro constraint member n mentioned
    obtain ⟨e, found⟩ : ∃ e : Entity, e.discriminatorConstraint? 0 = some constraint := by
      clear found
      induction roots generalizing constraints with
      | nil =>
          cases each
          contradiction
      | cons e rest ih =>
          rw [List.mapM_cons] at each
          obtain ⟨first, found, each⟩ := Option.bind_eq_some_iff.mp each
          obtain ⟨others, remaining, each⟩ := Option.bind_eq_some_iff.mp each
          cases each
          rcases List.mem_cons.mp member with rfl | later
          · exact ⟨e, found⟩
          · exact ih others remaining later
    exact tables_discriminatorConstraint? found mentioned
  intro c member n mentioned
  cases constraints with
  | nil => contradiction
  | cons first rest =>
      rcases List.mem_cons.mp member with rfl | later
      · exact zero first (List.mem_cons_self ..) n mentioned
      · obtain ⟨constraint, inside, among⟩ := List.mem_flatMap.mp later
        rcases among with _ | ⟨_, _ | ⟨_, ⟨⟩⟩⟩
        · contradiction
        · exact zero constraint (List.mem_cons_of_mem _ inside) n mentioned

theorem Sql.Statement.restrictedTo_restrictBy {s : Statement} {conditions : List Condition}
    (zero : ∀ c ∈ conditions, ∀ n ∈ c.tables, n = 0) :
    s.RestrictedTo (s.restrictBy { Statement.select with conditions := conditions }) := by
  unfold Statement.restrictBy
  dsimp only
  cases found : Statement.predicate? _ with
  | none => exact .refl s
  | some predicate =>
      have marked : s.RestrictedTo (s.addCondition (.mark .and)) := by
        refine ⟨[.mark .and], rfl, ?_⟩
        simp [Condition.tables]
      refine marked.trans (restrictedTo_filter fun n mentioned => ?_)
      rw [Expr.tables_parenthesized] at mentioned
      rcases Condition.tables_foldOnto found mentioned with ⟨_, none, -⟩ | ⟨c, inside, among⟩
      · contradiction
      · exact zero c inside n among

/-- The restriction to the rows of the roots mentions the roots' table. -/
theorem Entity.restrictedTo_constrainRoot (root : Entity) (others : List Entity) (s : Statement) :
    s.RestrictedTo (root.constrainRoot others pointInTime s) := by
  unfold Entity.constrainRoot
  extract_lets versioned
  have kept : s.RestrictedTo versioned := by
    unfold versioned
    split
    next constraint found => exact Statement.restrictedTo_filter fun n => tables_versionConstraint? found
    next => exact .refl s
  split
  · split
    next constraint found =>
      exact kept.trans (Statement.restrictedTo_filter fun n => tables_discriminatorConstraint? found)
    next => exact kept
  · split
    next conditions found => exact kept.trans (Statement.restrictedTo_restrictBy (tables_subtypeConstraint? found))
    next => exact kept

end Constraints

end ViewEngine
