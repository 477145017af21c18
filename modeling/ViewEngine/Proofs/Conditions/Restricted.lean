import ViewEngine.Proofs.Conditions.Runs

/-!
A statement restricted by another one. Only the predicate of the other one is put between brackets, and so
it joins the last alternative of what the statement asked before. Main statement: the rows that are kept
are those that both statements keep, and those that an alternative before the last one keeps.
-/

namespace ViewEngine.Sql

open ViewEngine.Sql.Expr Reader

namespace Statement

variable {atoms : List Token → Truth} {s child : Statement}

/-- What the WHERE clause says of a row; without one, every row is taken. -/
def whereTruth (atoms : List Token → Truth) (s : Statement) : Truth :=
  match predicateClause .whereClause s.predicate? with
  | _ :: _ :: text => truthOf atoms text
  | _ => some true

/-- What is written between one `OR` and the next, as the truths that it has. -/
def whereAlternatives (atoms : List Token → Truth) (s : Statement) : List Truth :=
  match predicateClause .whereClause s.predicate? with
  | _ :: _ :: text => alternatives atoms (truth atoms) (text.filter (!·.isBlank))
  | _ => [some true]

theorem whereTruth_eq (atoms : List Token → Truth) (s : Statement) :
    s.whereTruth atoms = Truth.disjunction (s.whereAlternatives atoms) := by
  unfold whereTruth whereAlternatives
  split
  · exact truth_eq ..
  · rfl

theorem whereTruth_none (absent : s.predicate? = none) : s.whereTruth atoms = some true := by
  rw [whereTruth, absent]
  rfl

theorem whereTruth_some {predicate : Expr} (present : s.predicate? = some predicate) :
    s.whereTruth atoms = truth atoms predicate.solid := by
  rw [whereTruth, present]
  rfl

theorem whereAlternatives_none (absent : s.predicate? = none) : s.whereAlternatives atoms = [some true] := by
  rw [whereAlternatives, absent]
  rfl

theorem whereAlternatives_some {predicate : Expr} (present : s.predicate? = some predicate) :
    s.whereAlternatives atoms = alternatives atoms (truth atoms) predicate.solid := by
  rw [whereAlternatives, present]
  rfl

theorem whereAlternatives_ne_nil (atoms : List Token → Truth) (s : Statement) : s.whereAlternatives atoms ≠ [] := by
  unfold whereAlternatives
  split <;> nofun

theorem parenthesized_isFactor (atoms : List Token → Truth) (expr : Expr) :
    IsFactor atoms expr.parenthesized.solid (truth atoms expr.solid) := by
  have bracketed (inner : Expr) : IsFactor atoms (Expr.parenthesis inner).solid (truth atoms inner.solid) := by
    rw [solid_parenthesis]
    exact .bracketed inner.solid_closed
  cases expr with
  | parenthesis inner =>
      rw [(bracketed inner).isAlternative.truth]
      exact bracketed inner
  | _ => exact bracketed _

theorem parenthesized_asConjunct (expr : Expr) : expr.parenthesized.asConjunct = expr.parenthesized := by
  cases expr <;> rfl

theorem alternatives_conjoined {before after : List Token} {t : Truth} (closed : IsClosed before)
    (second : IsAlternative atoms after t) :
    ∃ init last, alternatives atoms (truth atoms) before = init ++ [last] ∧
      alternatives atoms (truth atoms) (before ++ .keyword .and :: after) = init ++ [last.and t] := by
  have plain : Token.isBracket (.keyword .or) = false := rfl
  obtain ⟨init, last, lastClosed, alone, behind⟩ := closed.partsFrom_last plain .nil
  have whole : IsWhole (· == .keyword .or) (.keyword .and :: after) := .cons rfl rfl second.whole
  have joined : alternative atoms (truth atoms) (last ++ .keyword .and :: after) =
      (alternative atoms (truth atoms) last).and t := by
    rw [alternative, partsBetween, lastClosed.partsFrom_append rfl, List.map_append, Truth.conjunction_append]
    exact congrArg (Truth.and _) second.means
  refine ⟨init.map (alternative atoms (truth atoms)), alternative atoms (truth atoms) last, ?_, ?_⟩
  · rw [alternatives, partsBetween, alone, List.map_append, List.map_singleton]
  · rw [alternatives, partsBetween, behind _ whole, List.map_append, List.map_singleton, joined]

section Conditions

variable {conditions : List Condition} {expr folded : Expr}

theorem fold?_marked (connective : Connective) (conditions : List Condition) (expr : Expr) :
    Condition.fold? (conditions ++ [.mark connective, .predicate expr]) =
      some (((Condition.fold? conditions).map fun left => Condition.join left (connective, expr)).getD expr.asConjunct) := by
  suffices onto : ∀ joined next, Condition.foldOnto joined next (conditions ++ [.mark connective, .predicate expr]) =
      some (((Condition.foldOnto joined next conditions).map fun left =>
        Condition.join left (connective, expr)).getD expr.asConjunct) from onto none .and
  induction conditions with
  | nil => intro joined next; cases joined <;> rfl
  | cons condition rest ih =>
      intro joined next
      cases condition with
      | mark other => exact ih joined other
      | predicate first => cases joined <;> exact ih _ .and

end Conditions

/-- The joins are taken over one after the other, each if it is not there yet, and nothing else changes. -/
theorem foldl_addJoin (joins : List Join) (s : Statement) : ∃ added, joins.foldl addJoin s = { s with joins := s.joins ++ added } ∧
    added.Sublist joins ∧ (∀ join ∈ joins, join ∈ added ∨ (s.joins ++ added).any (·.equal join) = true) ∧
    ∀ before join after, added = before ++ join :: after → (s.joins ++ before).any (·.equal join) = false := by
  induction joins generalizing s with
  | nil =>
      refine ⟨[], ?_, .slnil, fun _ none => absurd none List.not_mem_nil, fun before _ _ cut => ?_⟩
      · rw [List.append_nil]
        cases s
        rfl
      · cases before <;> cases cut
  | cons join rest ih =>
      obtain ⟨added, joined, sub, there, fresh⟩ := ih (s.addJoin join)
      rw [List.foldl_cons]
      by_cases present : s.joins.any (·.equal join) = true
      · rw [addJoin, if_pos present] at joined there fresh ⊢
        refine ⟨added, joined, sub.cons join, List.forall_mem_cons.mpr ⟨.inr ?_, there⟩, fresh⟩
        rw [List.any_append, present, Bool.true_or]
      · have grown : s.addJoin join = { s with joins := s.joins ++ [join] } := by rw [addJoin, if_neg present]
        have behind (others : List Join) : s.joins ++ [join] ++ others = s.joins ++ join :: others := by
          rw [List.append_assoc, List.singleton_append]
        rw [grown] at joined there fresh ⊢
        simp only [behind] at joined there fresh
        refine ⟨join :: added, joined, sub.cons_cons join, List.forall_mem_cons.mpr ⟨.inl (List.mem_cons_self ..), ?_⟩, ?_⟩
        · exact fun other member => (there other member).imp_left (List.mem_cons_of_mem _)
        · intro before other after cut
          cases before with
          | nil =>
              obtain ⟨rfl, -⟩ := List.cons.inj cut
              rw [List.append_nil]
              exact Bool.eq_false_of_not_eq_true present
          | cons first before =>
              obtain ⟨rfl, rfl⟩ := List.cons.inj cut
              exact fresh before other after rfl

theorem restrictBy_none (absent : child.predicate? = none) : s.restrictBy child = child.joins.foldl addJoin s := by
  rw [restrictBy, absent]

theorem restrictBy_some {predicate : Expr} (present : child.predicate? = some predicate) : s.restrictBy child =
    ((child.joins.foldl addJoin s).addCondition (.mark .and)).filter predicate.parenthesized := by
  rw [restrictBy, present]

theorem whereAlternatives_restrictBy (atoms : List Token → Truth) (s child : Statement) :
    ∃ init last, s.whereAlternatives atoms = init ++ [last] ∧
      (s.restrictBy child).whereAlternatives atoms = init ++ [last.and (child.whereTruth atoms)] := by
  obtain ⟨added, joined, -⟩ := foldl_addJoin child.joins s
  cases asked : child.predicate? with
  | none =>
      rw [restrictBy_none asked, joined, whereTruth_none asked]
      have same : whereAlternatives atoms { s with joins := s.joins ++ added } = s.whereAlternatives atoms := rfl
      refine ⟨_, _, (List.dropLast_append_getLast (whereAlternatives_ne_nil atoms s)).symm, ?_⟩
      rw [same, Truth.and_true, List.dropLast_append_getLast]
  | some predicate =>
      have conditions : (s.restrictBy child).conditions = s.conditions ++ [.mark .and, .predicate predicate.parenthesized] := by
        rw [restrictBy_some asked, joined]
        exact List.append_assoc ..
      have folded := fold?_marked .and s.conditions predicate.parenthesized
      rw [← conditions] at folded
      have second := (parenthesized_isFactor atoms predicate).isAlternative
      rw [whereTruth_some asked]
      cases own : s.predicate? with
      | none =>
          rw [predicate?] at own
          rw [own, Option.map_none, Option.getD_none, parenthesized_asConjunct] at folded
          refine ⟨[], some true, whereAlternatives_none own, ?_⟩
          rw [whereAlternatives_some folded, second.alone, Truth.true_and]
          rfl
      | some left =>
          rw [predicate?] at own
          rw [own, Option.map_some, Option.getD_some, Condition.join, parenthesized_asConjunct] at folded
          rw [whereAlternatives_some own, whereAlternatives_some folded, solid_binary]
          exact alternatives_conjoined left.solid_closed second

/-- A restricted statement keeps what both keep, and what an alternative before the last one keeps; with
one alternative, its clause is the conjunction. The joins of the other statement follow that are not there. -/
theorem restricts_last_alternative (atoms : List Token → Truth) (s child : Statement) :
    (∃ init last, s.whereAlternatives atoms = init ++ [last] ∧
      (s.restrictBy child).whereAlternatives atoms = init ++ [last.and (child.whereTruth atoms)] ∧
      ((s.restrictBy child).whereTruth atoms).holds =
        (init.any Truth.holds || ((s.whereTruth atoms).holds && (child.whereTruth atoms).holds)) ∧
      (init = [] → (s.restrictBy child).whereTruth atoms = (s.whereTruth atoms).and (child.whereTruth atoms))) ∧
      (∀ either : Statement, either.whereTruth atoms = Truth.disjunction (either.whereAlternatives atoms)) ∧
      ∃ added, (s.restrictBy child).joins = s.joins ++ added ∧ added.Sublist child.joins ∧
        (∀ join ∈ child.joins, join ∈ added ∨ (s.joins ++ added).any (·.equal join) = true) ∧
        ∀ before join after, added = before ++ join :: after → (s.joins ++ before).any (·.equal join) = false := by
  refine ⟨?_, whereTruth_eq atoms, ?_⟩
  · obtain ⟨init, last, own, restricted⟩ := whereAlternatives_restrictBy atoms s child
    refine ⟨init, last, own, restricted, ?_, ?_⟩
    · rw [whereTruth_eq, restricted, whereTruth_eq atoms s, own, Truth.holds_disjunction, Truth.holds_disjunction,
        List.any_append, List.any_append, List.any_cons, List.any_cons, Truth.holds_and]
      cases init.any Truth.holds <;> cases last.holds <;> cases (child.whereTruth atoms).holds <;> rfl
    · rintro rfl
      rw [whereTruth_eq, restricted, whereTruth_eq atoms s, own]
      exact (Truth.disjunction_single _).trans (congrArg (Truth.and · _) (Truth.disjunction_single last).symm)
  · obtain ⟨added, joined, further⟩ := foldl_addJoin child.joins s
    refine ⟨added, ?_, further⟩
    cases asked : child.predicate? with
    | none => rw [restrictBy_none asked, joined]
    | some predicate =>
        rw [restrictBy_some asked, joined]
        rfl

end Statement

namespace Shop

example : (((((Statement.select.filter isBook).addCondition (.mark .or)).filter isOld).restrictBy
    (Statement.select.filter isCheap)).whereTruth fun tokens => some (tokens = isBook.solid)) = some true := by
  decide +kernel

end Shop

end ViewEngine.Sql
