import ViewEngine.Proofs.Compilation.Collected
import ViewEngine.Proofs.Compilation.Scoping
import ViewEngine.Proofs.Conditions.Clauses

namespace ViewEngine

open Sql Compile

namespace Compile

variable {plan : JoinPlan} {s : Statement} {x : Reached} {reached : List Reached} {r : Root} {setting : Setting}

def Leaf.meaning (l : Leaf) : Meaning :=
  fun c frame => l.predicate.truth l.type c (frame.rows l.table l.column)

def predicateMeanings (reached : List Reached) : List Meaning :=
  (reached.filterMap (·.leaf?)).map Leaf.meaning

theorem Leaf.expr_means (l : Leaf) : l.expr.Means l.meaning :=
  l.predicate.expr_means l.type l.table l.column

theorem onto_kind (plan : JoinPlan) (s : Statement) (x : Reached) : (x.onto plan s).kind = s.kind := by
  have joined (join : Join) : (s.addJoin join).kind = s.kind := by
    unfold Statement.addJoin
    split <;> rfl
  unfold Reached.onto
  cases x.join? plan <;> cases x.leaf? <;> cases x.ordering? <;>
    simp [Statement.addOrdering, Statement.filter, Statement.addCondition, joined]

theorem onto_conditions (plan : JoinPlan) (s : Statement) (x : Reached) :
    (x.onto plan s).conditions = s.conditions ++ x.leaf?.toList.map fun l => .predicate l.expr := by
  have joined (join : Join) : (s.addJoin join).conditions = s.conditions := by
    unfold Statement.addJoin
    split <;> rfl
  unfold Reached.onto
  cases x.join? plan <;> cases x.leaf? <;> cases x.ordering? <;>
    simp [Statement.addOrdering, Statement.filter, Statement.addCondition, joined]

theorem foldl_onto_kind (plan : JoinPlan) (reached : List Reached) (s : Statement) :
    (reached.foldl (Reached.onto plan) s).kind = s.kind := by
  induction reached generalizing s with
  | nil => rfl
  | cons x rest ih => exact (ih _).trans (onto_kind plan s x)

theorem foldl_onto_meant (plan : JoinPlan) (reached : List Reached) (s : Statement) : ∃ added,
    (reached.foldl (Reached.onto plan) s).conditions = s.conditions ++ added ∧
      Condition.AreMeant added (predicateMeanings reached) := by
  induction reached generalizing s with
  | nil => exact ⟨[], (List.append_nil _).symm, .nil⟩
  | cons x rest ih =>
      obtain ⟨added, same, meant⟩ := ih (x.onto plan s)
      rw [onto_conditions, List.append_assoc] at same
      refine ⟨_, same, ?_⟩
      cases found : x.leaf? with
      | none =>
          rw [predicateMeanings, List.filterMap_cons_none found]
          exact meant
      | some l =>
          rw [predicateMeanings, List.filterMap_cons_some found]
          exact (Condition.AreMeant.single l.expr_means).append meant

theorem Root.Writes.conditions_meant (writes : r.Writes setting plan reached s) : s.kind = .select ∧
    Condition.AreMeant s.conditions
      (predicateMeanings reached ++ r.root.rootMeanings r.others setting.pointInTime) := by
  obtain ⟨begun, selected, grouping, ⟨select, none⟩, rfl⟩ := writes
  obtain ⟨added, same, meant⟩ := foldl_onto_meant plan reached begun
  obtain ⟨further, constrained, furtherMeant⟩ := r.root.constrainRoot_conditions r.others setting.pointInTime
    (reached.foldl (Reached.onto plan) begun)
  rw [constrained]
  refine ⟨(foldl_onto_kind plan reached begun).trans select, ?_⟩
  dsimp only
  rw [same, none, List.nil_append]
  exact meant.append furtherMeant

end Compile

/-- The WHERE clauses say what the filters mean. -/
theorem where_clauses_mean_filters {registry : Registry} {settings : ViewSettings} {dialect : Dialect}
    {pointInTime : Option Timestamp} {page : Page} {t : FilterTree} {v : CompiledView}
    (compiled : compile registry settings dialect pointInTime page t = .ok v) :
    let constraints := t.root.rootMeanings t.otherRoots pointInTime
    v.primary.Asks (predicateMeanings (reachedFrom registry v.joinPlan t) ++ constraints) ∧
      List.Forall₂ (fun s c =>
        let asked := predicateMeanings (c.reached registry v.joinPlan) ++ constraints
        s.path = c.path ∧ s.statement.Asks asked ∧
          ∀ keys, (s.forKeys keys).Asks (asked ++ [t.root.keyMeaning settings.keyDelimiter keys]))
        v.subSelects (collectedFrom registry v.joinPlan t) := by
  obtain ⟨⟨statement, offset, limit, primary, writes⟩, each⟩ := compile_writes compiled
  obtain ⟨select, meant⟩ := writes.conditions_meant
  refine ⟨?_, each.imp fun s c serves => ⟨serves.path, ?_, fun keys => ?_⟩⟩
  · rw [primary]
    exact Statement.asks_of_conditions (s := { statement with offset := offset, limit := limit }) select meant
  · obtain ⟨select, meant⟩ := serves.statement.conditions_meant
    exact Statement.asks_of_conditions select meant
  · obtain ⟨select, meant⟩ := serves.statement.conditions_meant
    have member : (Expr.membership s.rootKey (keys.map s.rootKeyType.literal) false).Means
        (t.root.keyMeaning settings.keyDelimiter keys) := by
      rw [serves.rootKey, serves.rootKeyType]
      exact t.root.keyMembership_means settings.keyDelimiter keys
    exact Statement.asks_of_conditions (s := s.forKeys keys) select (meant.append (.single member))

namespace Outline

/-- Two kinds of orders in one table, in versions, with predicates on the orders and on their lines. -/
def kinds : Outline where
  definitions := [
    { entity "Order" "orders" [column "id" "id" .bigInt true, column "kind" "kind" .varchar false,
        column "total" "total" .double false, column "since" "since" .timestamp false,
        column "until" "until" .timestamp false, association "lines" "Line" "line" "id" "order_id" true] with
      discriminator := some ("kind", .text "plain"), version := some ("since", "until") },
    { entity "RushOrder" "orders" [] with
      parent := some "Order", discriminator := some ("kind", .text "rush") },
    entity "Line" "line" [column "id" "id" .bigInt true, column "order" "order_id" .bigInt false,
      column "name" "name" .varchar false]]
  roots := ["Order", "RushOrder"]
  requests := [⟨"total", some ⟨.between, .int 1, some (.int 9)⟩⟩, ⟨"total", some ⟨.equalsOrNull, .int 5, none⟩⟩,
    ⟨"lines.name", some ⟨.notInList, .list [], none⟩⟩, ⟨"lines.name", some ⟨.notLike, .text "x", none⟩⟩]

set_option maxRecDepth 100000 in
/-- Between, or-null, empty-list and negated tests next to versions and subtypes, each in the statement that it
belongs to. -/
theorem kinds_mean_filters : ∃ registry t v, compile registry {} .sqlite none {} t = .ok v ∧
    (predicateMeanings (reachedFrom registry v.joinPlan t)).length = 2 ∧
    (t.root.rootMeanings t.otherRoots none).length = 2 ∧
    (collectedFrom registry v.joinPlan t).map (fun c => (predicateMeanings (c.reached registry v.joinPlan)).length) =
      [2] ∧
    v.primary.Asks (predicateMeanings (reachedFrom registry v.joinPlan t) ++ t.root.rootMeanings t.otherRoots none) ∧
    List.Forall₂ (fun s c =>
        let asked := predicateMeanings (c.reached registry v.joinPlan) ++ t.root.rootMeanings t.otherRoots none
        s.path = c.path ∧ s.statement.Asks asked ∧
          ∀ keys, (s.forKeys keys).Asks (asked ++ [t.root.keyMeaning ({} : ViewSettings).keyDelimiter keys]))
      v.subSelects (collectedFrom registry v.joinPlan t) := by
  have checked : (kinds.compiled?.map fun found =>
      let plan := found.2.2.joinPlan
      (predicateMeanings (reachedFrom found.1 plan found.2.1)).length == 2 &&
      (found.2.1.root.rootMeanings found.2.1.otherRoots none).length == 2 &&
      (collectedFrom found.1 plan found.2.1).map (fun c => (predicateMeanings (c.reached found.1 plan)).length) ==
        [2]) = some true := by
    decide +kernel
  obtain ⟨⟨registry, t, v⟩, found, checked⟩ := Option.map_eq_some_iff.mp checked
  simp only [Bool.and_eq_true, beq_iff_eq] at checked
  obtain ⟨⟨predicates, constraints⟩, collected⟩ := checked
  obtain ⟨-, -, compiled⟩ := compiled_eq found
  obtain ⟨primary, each⟩ := where_clauses_mean_filters compiled
  exact ⟨registry, t, v, compiled, predicates, constraints, collected, primary, each⟩

end Outline

end ViewEngine
