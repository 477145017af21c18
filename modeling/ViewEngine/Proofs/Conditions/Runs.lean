import Mathlib.Data.List.SplitBy
import ViewEngine.Proofs.Conditions.Formulas
import ViewEngine.Sql.Statement

/-!
What a list of conditions says once it is written as a clause. The fold joins the predicates from the left
and the text has no brackets for that; read as it stands, it is cut into the runs of predicates that no
`or` separates. Main statement: the clause says that all predicates of some run hold.
-/

namespace ViewEngine.Sql

open ViewEngine.Sql.Expr Reader

namespace Condition

/-- Each predicate with the last mark in front of it. -/
def entries : Connective → List Condition → List (Connective × Expr)
  | _, [] => []
  | _, .mark connective :: rest => entries connective rest
  | next, .predicate expr :: rest => (next, expr) :: entries .and rest

/-- The longest runs of predicates between which no last mark says `or`. -/
def runs (conditions : List Condition) : List (List Expr) :=
  ((entries .and conditions).splitBy fun _ entry => entry.1 == .and).map (·.map Prod.snd)

def runsTruth (atoms : List Token → Truth) (conditions : List Condition) : Truth :=
  Truth.disjunction ((runs conditions).map fun run => Truth.conjunction (run.map (truthBy atoms)))

section Entries

variable {conditions before after : List Condition} {next connective earlier : Connective} {expr : Expr}

theorem mem_entries (member : expr ∈ (entries next conditions).map Prod.snd) : .predicate expr ∈ conditions := by
  induction conditions generalizing next with
  | nil => cases member
  | cons condition rest ih =>
      cases condition with
      | mark connective => exact List.mem_cons_of_mem _ (ih member)
      | predicate first =>
          rw [entries, List.map_cons, List.mem_cons] at member
          rcases member with rfl | later
          · exact List.mem_cons_self ..
          · exact List.mem_cons_of_mem _ (ih later)

theorem entries_snd (next : Connective) (conditions : List Condition) : ∀ other : Connective,
    (entries next conditions = [] ∧ entries other conditions = []) ∨
      ∃ first second expr rest, entries next conditions = (first, expr) :: rest ∧
        entries other conditions = (second, expr) :: rest := by
  induction conditions generalizing next with
  | nil => exact fun _ => .inl ⟨rfl, rfl⟩
  | cons condition rest ih =>
      intro other
      cases condition with
      | mark connective => exact ih connective connective
      | predicate expr => exact .inr ⟨next, other, expr, _, rfl, rfl⟩

theorem entries_trailing : entries next (conditions ++ [.mark connective]) = entries next conditions := by
  induction conditions generalizing next with
  | nil => rfl
  | cons condition rest ih =>
      cases condition with
      | mark _ => exact ih
      | predicate expr => exact congrArg (List.cons (next, expr)) ih

theorem entries_repeated :
    entries next (before ++ .mark earlier :: .mark connective :: after) = entries next (before ++ .mark connective :: after) := by
  induction before generalizing next with
  | nil => rfl
  | cons condition rest ih =>
      cases condition with
      | mark _ => exact ih
      | predicate expr => exact congrArg (List.cons (next, expr)) ih

end Entries

def join (left : Expr) (entry : Connective × Expr) : Expr :=
  .binary entry.1.operator left entry.2.asConjunct

theorem foldOnto_some (left : Expr) (next : Connective) (conditions : List Condition) :
    foldOnto (some left) next conditions = some ((entries next conditions).foldl join left) := by
  induction conditions generalizing left next with
  | nil => rfl
  | cons condition rest ih => cases condition <;> exact ih ..

theorem foldOnto_none (next : Connective) (conditions : List Condition) : foldOnto none next conditions =
    (entries next conditions).head?.map fun entry => (entries next conditions).tail.foldl join entry.2.asConjunct := by
  induction conditions generalizing next with
  | nil => rfl
  | cons condition rest ih =>
      cases condition with
      | mark connective => exact ih connective
      | predicate expr => exact foldOnto_some ..

theorem fold?_eq (conditions : List Condition) : fold? conditions =
    (entries .and conditions).head?.map fun entry => (entries .and conditions).tail.foldl join entry.2.asConjunct :=
  foldOnto_none .and conditions

theorem fold?_leading (connective : Connective) (conditions : List Condition) :
    fold? (.mark connective :: conditions) = fold? conditions := by
  have fromMark : fold? (.mark connective :: conditions) = foldOnto none connective conditions := rfl
  rw [fromMark, fold?_eq, foldOnto_none]
  rcases entries_snd connective conditions .and with ⟨none, noneHere⟩ | ⟨first, second, expr, rest, begins, here⟩
  · rw [none, noneHere]
  · rw [begins, here]
    rfl

theorem fold?_trailing (conditions : List Condition) (connective : Connective) :
    fold? (conditions ++ [.mark connective]) = fold? conditions := by
  rw [fold?_eq, fold?_eq, entries_trailing]

theorem fold?_repeated (before after : List Condition) (earlier connective : Connective) :
    fold? (before ++ .mark earlier :: .mark connective :: after) = fold? (before ++ .mark connective :: after) := by
  rw [fold?_eq, fold?_eq, entries_repeated]

def written (entry : Connective × Expr) : List Token :=
  entry.1.operator.token :: entry.2.asConjunct.solid

theorem solid_foldl (left : Expr) (rest : List (Connective × Expr)) :
    (rest.foldl join left).solid = left.solid ++ rest.flatMap written := by
  induction rest generalizing left with
  | nil => exact (List.append_nil _).symm
  | cons entry rest ih =>
      rw [List.foldl_cons, ih, join, solid_binary, List.flatMap_cons, List.append_assoc]
      rfl

theorem written_closed (rest : List (Connective × Expr)) : IsClosed (rest.flatMap written) := by
  induction rest with
  | nil => exact .nil
  | cons entry rest ih =>
      have own : IsClosed (written entry) := .plain (operator_not_isBracket _) (Expr.solid_closed _)
      exact own.append ih

def IsLater (run : List (Connective × Expr)) : Prop :=
  ∃ expr tail, run = (.or, expr) :: tail ∧ ∀ entry ∈ tail, entry.1 = .and

section Truths

variable {atoms : List Token → Truth} {first : Expr} {rest : List (Connective × Expr)}

theorem run_isAlternative (formulas : ∀ expr ∈ first :: rest.map Prod.snd, expr.IsFormula)
    (ands : ∀ entry ∈ rest, entry.1 = .and) :
    IsAlternative atoms (first.asConjunct.solid ++ rest.flatMap written)
      (Truth.conjunction ((first :: rest.map Prod.snd).map (truthBy atoms))) := by
  induction rest generalizing first with
  | nil =>
      rw [List.flatMap_nil, List.append_nil, List.map_nil, List.map_singleton, Truth.conjunction_single]
      exact (formulas first (List.mem_singleton_self first)).isRead.asConjunct
  | cons entry rest ih =>
      rw [List.forall_mem_cons] at ands
      rw [List.map_cons, List.forall_mem_cons] at formulas
      obtain ⟨connective, expr⟩ := entry
      obtain ⟨rfl, others⟩ := ands
      exact .and first.asConjunct.solid_closed formulas.1.isRead.asConjunct (ih formulas.2 others)

theorem truth_runs {others : List (List (Connective × Expr))}
    (formulas : ∀ expr ∈ first :: (rest ++ others.flatten).map Prod.snd, expr.IsFormula)
    (ands : ∀ entry ∈ rest, entry.1 = .and)
    (runs : ∀ run ∈ others, IsLater run) :
    Reader.truth atoms (first.asConjunct.solid ++ (rest ++ others.flatten).flatMap written) =
      Truth.disjunction (((first :: rest.map Prod.snd) :: others.map (·.map Prod.snd)).map fun run =>
        Truth.conjunction (run.map (truthBy atoms))) := by
  induction others generalizing first rest with
  | nil =>
      rw [List.flatten_nil, List.append_nil] at formulas ⊢
      rw [(run_isAlternative formulas ands).truth]
      exact (Truth.disjunction_single _).symm
  | cons run others ih =>
      rw [List.forall_mem_cons] at runs
      obtain ⟨⟨second, tail, rfl, tailAnds⟩, laterRuns⟩ := runs
      rw [List.map_append, ← List.cons_append, List.forall_mem_append] at formulas
      have own : IsAlternative atoms _ _ := run_isAlternative formulas.1 ands
      have later := ih formulas.2 tailAnds laterRuns
      have closed := first.asConjunct.solid_closed.append (written_closed rest)
      rw [List.flatMap_append, ← List.append_assoc]
      exact (truth_or closed).trans (congrArg₂ Truth.or own.truth later)

end Truths

theorem forall_of_isChain {α : Type} {p : α → Prop} {first : α} {rest : List α}
    (chain : (first :: rest).IsChain fun _ next => p next) : ∀ next ∈ rest, p next := by
  induction rest generalizing first with
  | nil => exact fun _ none => absurd none List.not_mem_nil
  | cons next rest ih =>
      rw [List.isChain_cons_cons] at chain
      exact List.forall_mem_cons.mpr ⟨chain.1, ih chain.2⟩

section Cut

variable {conditions : List Condition} {connective : Connective} {first : Expr}
  {rest : List (Connective × Expr)}

theorem ands_of_isChain {entry : Connective × Expr} {tail : List (Connective × Expr)}
    (chain : (entry :: tail).IsChain fun _ next => (next.1 == .and) = true) : ∀ next ∈ tail, next.1 = .and :=
  fun next member => eq_of_beq (forall_of_isChain (p := fun next => (next.1 == .and) = true) chain next member)

theorem runs_cons (cut : entries .and conditions = (connective, first) :: rest) :
    ∃ (own : List (Connective × Expr)) (others : List (List (Connective × Expr))), rest = own ++ others.flatten ∧
      runs conditions = (first :: own.map Prod.snd) :: others.map (·.map Prod.snd) ∧
      (∀ entry ∈ own, entry.1 = .and) ∧ ∀ run ∈ others, IsLater run := by
  obtain ⟨flat, filled, chains, between⟩ := List.splitBy_eq_iff.mp
    (Eq.refl ((entries .and conditions).splitBy fun _ entry => entry.1 == .and))
  unfold runs
  cases split : (entries .and conditions).splitBy fun _ entry => entry.1 == .and with
  | nil => rw [split, cut] at flat; cases flat
  | cons run others =>
      rw [split] at flat filled chains between
      rw [cut] at flat
      rw [List.mem_cons, not_or] at filled
      rw [List.forall_mem_cons] at chains
      cases run with
      | nil => exact absurd rfl filled.1
      | cons entry own =>
          obtain ⟨rfl, rfl⟩ := List.cons.inj flat
          refine ⟨own, others, rfl, rfl, ands_of_isChain chains.1, fun run member => ?_⟩
          have heads := forall_of_isChain
            (p := fun run : List (Connective × Expr) => ∃ filled, ((run.head filled).1 == .and) = false)
            (between.imp fun _ _ ⟨_, filled, or⟩ => ⟨filled, or⟩)
          obtain ⟨filled, or⟩ := heads run member
          cases run with
          | nil => exact absurd rfl filled
          | cons next tail =>
              obtain ⟨connective, expr⟩ := next
              cases connective with
              | and => cases or
              | or => exact ⟨expr, tail, rfl, ands_of_isChain (chains.2 _ member)⟩

end Cut

variable {atoms : List Token → Truth} {conditions : List Condition}

theorem fold?_means (atoms : List Token → Truth) (formulas : ∀ expr, .predicate expr ∈ conditions → expr.IsFormula) :
    (runs conditions = [] ∧ fold? conditions = none) ∨
      ∃ folded, runs conditions ≠ [] ∧ fold? conditions = some folded ∧
        Reader.truth atoms folded.solid = runsTruth atoms conditions := by
  rw [fold?_eq]
  cases cut : entries .and conditions with
  | nil =>
      refine .inl ⟨?_, rfl⟩
      rw [runs, cut]
      rfl
  | cons entry rest =>
      obtain ⟨connective, first⟩ := entry
      obtain ⟨own, others, rfl, cutRuns, ands, later⟩ := runs_cons cut
      have each : ∀ expr ∈ first :: (own ++ others.flatten).map Prod.snd, expr.IsFormula := by
        intro expr member
        have listed : expr ∈ (entries .and conditions).map Prod.snd := by rwa [cut, List.map_cons]
        exact formulas expr (mem_entries listed)
      refine .inr ⟨_, ?_, rfl, ?_⟩
      · rw [cutRuns]
        exact nofun
      · rw [List.tail_cons, solid_foldl, truth_runs each ands later, runsTruth, cutRuns]

/-- A clause that says what the conditions do; without entries in them there is none. -/
def IsClauseOf (atoms : List Token → Truth) (conditions : List Condition) (heading : Keyword) (clause : List Token) : Prop :=
  (runs conditions = [] ∧ clause = []) ∨
    ∃ text, runs conditions ≠ [] ∧ clause = [.newline, .keyword heading, .space] ++ text ∧
      truthOf atoms text = runsTruth atoms conditions

theorem clause_means (formulas : ∀ expr, .predicate expr ∈ conditions → expr.IsFormula) (heading : Keyword) :
    IsClauseOf atoms conditions heading (Statement.predicateClause heading (fold? conditions)) := by
  rcases fold?_means atoms formulas with ⟨none, absent⟩ | ⟨folded, some, present, means⟩
  · rw [absent]
    exact .inl ⟨none, rfl⟩
  · rw [present]
    exact .inr ⟨folded.tokens, some, rfl, means⟩

end Condition

namespace Statement

theorem conditions_calls (s : Statement) (calls : List Condition) :
    (calls.foldl addCondition s).conditions = s.conditions ++ calls ∧
      (calls.foldl addCondition s).groupConditions = s.groupConditions := by
  induction calls generalizing s with
  | nil => exact ⟨(List.append_nil _).symm, rfl⟩
  | cons call rest ih => exact ⟨(ih _).1.trans (List.append_assoc ..), (ih _).2⟩

theorem groupConditions_calls (s : Statement) (calls : List Condition) :
    (calls.foldl addGroupCondition s).groupConditions = s.groupConditions ++ calls ∧
      (calls.foldl addGroupCondition s).conditions = s.conditions := by
  induction calls generalizing s with
  | nil => exact ⟨(List.append_nil _).symm, rfl⟩
  | cons call rest ih => exact ⟨(ih _).1.trans (List.append_assoc ..), (ih _).2⟩

open Condition

/-- Whatever is asked of a query in whichever order, its clauses say that all predicates of some run hold,
and a mark that no predicate follows on says nothing. -/
theorem clauses_mean_runs (atoms : List Token → Truth) (s : Statement) (unasked : s.conditions = [] ∧ s.groupConditions = [])
    (calls groupCalls : List Condition) (formulas : ∀ expr, .predicate expr ∈ calls ++ groupCalls → expr.IsFormula) :
    let asked := groupCalls.foldl addGroupCondition (calls.foldl addCondition s)
    IsClauseOf atoms calls .whereClause (predicateClause .whereClause asked.predicate?) ∧
      IsClauseOf atoms groupCalls .having (predicateClause .having asked.groupPredicate?) ∧
      (∀ connective conditions, fold? (.mark connective :: conditions) = fold? conditions) ∧
      (∀ conditions connective, fold? (conditions ++ [.mark connective]) = fold? conditions) ∧
      ∀ before after earlier connective,
        fold? (before ++ .mark earlier :: .mark connective :: after) = fold? (before ++ .mark connective :: after) := by
  intro asked
  obtain ⟨conditions, groupConditions⟩ := conditions_calls s calls
  obtain ⟨groupAsked, asked_conditions⟩ := groupConditions_calls (calls.foldl addCondition s) groupCalls
  have rows : asked.conditions = calls := by
    rw [asked_conditions, conditions, unasked.1, List.nil_append]
  have groups : asked.groupConditions = groupCalls := by
    rw [groupAsked, groupConditions, unasked.2, List.nil_append]
  refine ⟨?_, ?_, fold?_leading, fold?_trailing, fold?_repeated⟩
  · rw [predicate?, rows]
    exact clause_means (fun expr member => formulas expr (List.mem_append_left _ member)) _
  · rw [groupPredicate?, groups]
    exact clause_means (fun expr member => formulas expr (List.mem_append_right _ member)) _

end Statement

namespace Shop

open Condition Statement

def isBook : Expr := equals (unqualified "kind") (string "book")

def isCheap : Expr := less (unqualified "price") (unqualified "limit")

def isOld : Expr := isNotNull (unqualified "until")

def isUnnamed : Expr := .negation (like (unqualified "name") (string "%"))

def many : Expr := greater (.function "count" [.star none]) (unqualified "least")

/-- A leading `or`, two marks of which the last one counts, and an `or` behind all. -/
def asked : List Condition :=
  [.mark .or, .predicate isBook, .mark .or, .mark .and, .predicate (isCheap.disjoined isOld), .mark .or,
    .predicate isUnnamed, .mark .or]

def known (tokens : List Token) : Truth :=
  if tokens = isBook.solid then some false else if tokens = many.solid then some true else none

theorem asks_for_two_runs : runs asked = [[isBook, isCheap.disjoined isOld], [isUnnamed]] ∧ runsTruth known asked = none ∧
    IsClauseOf known asked .whereClause (predicateClause .whereClause
      ([Condition.predicate many].foldl addGroupCondition (asked.foldl addCondition select)).predicate?) := by
  have comparison (operator : Operator) (left right : Expr) (plain : (Expr.binary operator left right).IsPlain) :
      (Expr.binary operator left right).IsFormula := .test plain rfl
  have formulas : ∀ expr, .predicate expr ∈ asked ++ [.predicate many] → expr.IsFormula := by
    intro expr member
    simp only [asked, List.cons_append, List.nil_append, List.mem_cons, List.not_mem_nil, reduceCtorEq, false_or,
      or_false, Condition.predicate.injEq] at member
    rcases member with rfl | rfl | rfl | rfl
    · exact comparison _ _ _ ⟨nofun, nofun, trivial, trivial⟩
    · exact .disjoined (comparison _ _ _ ⟨nofun, nofun, trivial, trivial⟩) (.test trivial rfl)
    · exact .negation (comparison _ _ _ ⟨nofun, nofun, trivial, trivial⟩) rfl
    · exact comparison _ _ _ ⟨nofun, nofun, trivial, trivial⟩
  exact ⟨rfl, by decide +kernel, (clauses_mean_runs known select ⟨rfl, rfl⟩ asked [.predicate many] formulas).1⟩

end Shop

end ViewEngine.Sql
