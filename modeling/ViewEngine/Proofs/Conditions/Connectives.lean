import ViewEngine.Proofs.Conditions.Meaning

/-!
What tokens are read to say once it is known what their tests say. The connectives bind as in SQL: what is
outside of all brackets is cut at `OR`, then at `AND`; `NOT` binds more than these, and brackets most. Main
statement: two lists of tokens that close their brackets, with a connective between them, are cut where
each of them is, and between them.
-/

namespace ViewEngine

open Sql

namespace Truth

variable {first second : List Truth}

theorem or_false (t : Truth) : t.or (some false) = t := by
  rcases t with _ | _ | _ <;> rfl

theorem and_true (t : Truth) : t.and (some true) = t := by
  rcases t with _ | _ | _ <;> rfl

theorem false_or (t : Truth) : Truth.or (some false) t = t := by
  rcases t with _ | _ | _ <;> rfl

theorem true_and (t : Truth) : Truth.and (some true) t = t := by
  rcases t with _ | _ | _ <;> rfl

theorem disjunction_append : disjunction (first ++ second) = (disjunction first).or (disjunction second) := by
  induction first with
  | nil => exact (false_or _).symm
  | cons t rest ih => exact (congrArg t.or ih).trans (or_assoc ..).symm

theorem conjunction_append : conjunction (first ++ second) = (conjunction first).and (conjunction second) := by
  induction first with
  | nil => exact (true_and _).symm
  | cons t rest ih => exact (congrArg t.and ih).trans (and_assoc ..).symm

theorem holds_disjunction (truths : List Truth) : (disjunction truths).holds = truths.any holds := by
  induction truths with
  | nil => rfl
  | cons t rest ih => rw [List.any_cons, ← ih, ← holds_or]; rfl

theorem disjunction_single (t : Truth) : disjunction [t] = t :=
  or_false t

theorem conjunction_single (t : Truth) : conjunction [t] = t :=
  and_true t

end Truth

namespace Sql

/-- The parts between the marks outside of all brackets, where the first one goes on from `part`. -/
def partsFrom (mark : Token) (part tokens : List Token) : List (List Token) :=
  let (first, others) := partsAt (· == mark) 0 part tokens
  first :: others.map (·.2)

namespace Reader

def partsBetween (mark : Token) (tokens : List Token) : List (List Token) :=
  partsFrom mark [] tokens

/-- What stands between a bracket and the one that closes it, when nothing stands behind that. -/
def enclosed? : List Token → Option (List Token)
  | .symbol .opening :: rest =>
    match partsAt (· == .symbol .closing) 0 [] rest with
    | (inside, [(_, [])]) => some inside
    | _ => none
  | _ => none

section Truths

variable (atoms nested : List Token → Truth)

/-- What stands between two connectives: a test, after any number of `NOT`, or something between brackets. -/
def factor : List Token → Truth
  | .keyword .not :: rest => (factor rest).negated
  | tokens =>
    match enclosed? tokens with
    | some inside => nested inside
    | none => atoms tokens

def alternative (tokens : List Token) : Truth :=
  Truth.conjunction ((partsBetween (.keyword .and) tokens).map (factor atoms nested))

def alternatives (tokens : List Token) : List Truth :=
  (partsBetween (.keyword .or) tokens).map (alternative atoms nested)

def truthWithin : Nat → List Token → Truth
  | 0 => fun _ => none
  | depth + 1 => fun tokens => Truth.disjunction (alternatives atoms (truthWithin depth) tokens)

def truth (tokens : List Token) : Truth :=
  truthWithin atoms (tokens.length + 1) tokens

end Truths

end Reader

/-- What tokens say of a row, given what each test says of it. -/
def truthOf (atoms : List Token → Truth) (tokens : List Token) : Truth :=
  Reader.truth atoms (tokens.filter (!·.isBlank))

/-- Tokens in which each bracket that is opened is closed and each that is closed was opened. -/
inductive IsClosed : List Token → Prop where
  | nil : IsClosed []
  | plain {token : Token} {rest : List Token} (plain : token.isBracket = false) (closed : IsClosed rest) :
    IsClosed (token :: rest)
  | bracketed {inside rest : List Token} (within : IsClosed inside) (closed : IsClosed rest) :
    IsClosed ((.symbol .opening :: inside ++ [.symbol .closing]) ++ rest)

section Cuts

variable {isMark : Token → Bool} {mark token : Token} {part before after tokens : List Token}

theorem partsFrom_nil : partsFrom mark part [] = [part] := rfl

theorem partsFrom_mark : partsFrom mark part (mark :: tokens) = part :: partsFrom mark [] tokens := by
  have here : (0 = 0 ∧ (mark == mark) = true) := ⟨rfl, BEq.rfl⟩
  rw [partsFrom, partsAt, if_pos here]
  rfl

theorem partsFrom_plain (other : token ≠ mark) (plain : token.isBracket = false) :
    partsFrom mark part (token :: tokens) = partsFrom mark (part ++ [token]) tokens := by
  have elsewhere : ¬(0 = 0 ∧ (token == mark) = true) := fun both => other (eq_of_beq both.2)
  rw [partsFrom, partsAt, if_neg elsewhere, depthBehind_of_not_isBracket plain, partsFrom]

theorem partsFrom_whole (whole : IsWhole (· == mark) before) (part tokens : List Token) :
    partsFrom mark part (before ++ tokens) = partsFrom mark (part ++ before) tokens := by
  rw [partsFrom, whole, partsFrom]

theorem partsBetween_whole (whole : IsWhole (· == mark) tokens) : Reader.partsBetween mark tokens = [tokens] := by
  have cut := partsFrom_whole whole [] []
  rwa [List.append_nil, List.nil_append, partsFrom_nil] at cut

namespace IsClosed

theorem append (first : IsClosed before) (second : IsClosed after) : IsClosed (before ++ after) := by
  induction first with
  | nil => exact second
  | plain plain _ ih => exact .plain plain ih
  | bracketed within _ _ ih => exact List.append_assoc .. ▸ .bracketed within ih

theorem single (plain : token.isBracket = false) : IsClosed [token] :=
  .plain plain .nil

theorem between (within : IsClosed tokens) : IsClosed (.symbol .opening :: tokens ++ [.symbol .closing]) := by
  have closed := IsClosed.bracketed within .nil
  rwa [List.append_nil] at closed

theorem balanced (closed : IsClosed tokens) : IsBalanced tokens := by
  induction closed with
  | nil => exact .nil
  | plain plain _ ih => exact .cons plain ih
  | bracketed _ _ inside ih => exact (IsBalanced.bracketed inside).append ih

/-- Brackets that are closed are no place to cut at what is a bracket itself. -/
theorem whole_closing (closed : IsClosed tokens) : IsWhole (· == .symbol .closing) tokens := by
  induction closed with
  | nil => exact .nil
  | @plain token _ plain _ ih =>
      have other : (token == .symbol .closing) = false := by
        rw [beq_eq_false_iff_ne]
        rintro rfl
        cases plain
      exact .cons other plain ih
  | bracketed within _ _ ih => exact (IsWhole.bracketed rfl within.balanced).append ih

theorem whole_bracketed (within : IsClosed tokens) (plain : mark.isBracket = false) :
    IsWhole (· == mark) (.symbol .opening :: tokens ++ [.symbol .closing]) := by
  refine .bracketed ?_ within.balanced
  rw [beq_eq_false_iff_ne]
  rintro rfl
  cases plain

/-- Behind tokens that close their brackets a mark is outside of all brackets. -/
theorem partsFrom_append (closed : IsClosed before) (plain : mark.isBracket = false) (part rest : List Token) :
    partsFrom mark part (before ++ mark :: rest) = partsFrom mark part before ++ partsFrom mark [] rest := by
  induction closed generalizing part with
  | nil => exact partsFrom_mark
  | @plain token _ tokenPlain _ ih =>
      by_cases here : token = mark
      · rw [here, List.cons_append, partsFrom_mark, partsFrom_mark, ih, List.cons_append]
      · rw [List.cons_append, partsFrom_plain here tokenPlain, partsFrom_plain here tokenPlain, ih]
  | bracketed within _ _ ih =>
      have whole := within.whole_bracketed plain
      rw [List.append_assoc, partsFrom_whole whole, partsFrom_whole whole, ih]

/-- What has no mark of its own goes to the last part of what is in front of it. -/
theorem partsFrom_last (closed : IsClosed before) (plain : mark.isBracket = false) (partClosed : IsClosed part) :
    ∃ init last, IsClosed last ∧ partsFrom mark part before = init ++ [last] ∧
      ∀ rest, IsWhole (· == mark) rest → partsFrom mark part (before ++ rest) = init ++ [last ++ rest] := by
  induction closed generalizing part with
  | nil =>
      refine ⟨[], part, partClosed, rfl, fun rest whole => ?_⟩
      have cut := partsFrom_whole whole part []
      rwa [List.append_nil] at cut
  | @plain token _ tokenPlain _ ih =>
      by_cases here : token = mark
      · obtain ⟨init, last, lastClosed, alone, behind⟩ := ih .nil
        refine ⟨part :: init, last, lastClosed, ?_, fun rest whole => ?_⟩
        · rw [here, partsFrom_mark, alone, List.cons_append]
        · rw [here, List.cons_append, partsFrom_mark, behind rest whole, List.cons_append]
      · obtain ⟨init, last, lastClosed, alone, behind⟩ := ih (partClosed.append (.single tokenPlain))
        refine ⟨init, last, lastClosed, ?_, fun rest whole => ?_⟩
        · rw [partsFrom_plain here tokenPlain, alone]
        · rw [List.cons_append, partsFrom_plain here tokenPlain, behind rest whole]
  | bracketed within _ _ ih =>
      have bracketed := within.whole_bracketed plain
      obtain ⟨init, last, lastClosed, alone, behind⟩ := ih (partClosed.append within.between)
      refine ⟨init, last, lastClosed, ?_, fun rest whole => ?_⟩
      · rw [partsFrom_whole bracketed, alone]
      · rw [List.append_assoc, partsFrom_whole bracketed, behind rest whole]

theorem enclosed? (within : IsClosed tokens) :
    Reader.enclosed? (.symbol .opening :: tokens ++ [.symbol .closing]) = some tokens := by
  have closing : (Token.symbol .closing == .symbol .closing) = true := rfl
  have cut := within.whole_closing.parts_mark closing []
  rw [List.cons_append, Reader.enclosed?, cut]
  rfl

end IsClosed

end Cuts

theorem partsAt_length {isMark : Token → Bool} {tokens : List Token} {depth : Nat} {part piece : List Token}
    (member : piece ∈ (partsAt isMark depth part tokens).1 :: (partsAt isMark depth part tokens).2.map (·.2)) :
    piece.length ≤ part.length + tokens.length := by
  induction tokens generalizing depth part with
  | nil =>
      rw [partsAt, List.map_nil, List.mem_singleton] at member
      exact member ▸ Nat.le_refl _
  | cons token rest ih =>
      rw [partsAt] at member
      rw [List.length_cons]
      split at member
      · rcases List.mem_cons.mp member with rfl | later
        · exact Nat.le_add_right ..
        · have short := ih later
          rw [List.length_nil] at short
          omega
      · have short := ih member
        rw [List.length_append, List.length_singleton] at short
        omega

theorem partsBetween_length {mark : Token} {tokens piece : List Token} (member : piece ∈ Reader.partsBetween mark tokens) :
    piece.length ≤ tokens.length := by
  have short := partsAt_length member
  rwa [List.length_nil, Nat.zero_add] at short

namespace Reader

variable {atoms nested other : List Token → Truth} {tokens inside : List Token}

theorem enclosed?_length (enclosed : enclosed? tokens = some inside) : inside.length < tokens.length := by
  unfold enclosed? at enclosed
  split at enclosed
  next rest =>
    split at enclosed
    next cut =>
      cases enclosed
      have short : (partsAt (· == .symbol .closing) 0 [] rest).1.length ≤ _ := partsAt_length (List.mem_cons_self ..)
      rw [cut, List.length_nil, Nat.zero_add] at short
      exact Nat.lt_succ_of_le short
    next => cases enclosed
  next => cases enclosed

theorem factor_congr (same : ∀ inside, inside.length < tokens.length → nested inside = other inside) :
    factor atoms nested tokens = factor atoms other tokens := by
  induction tokens using factor.induct with
  | case1 rest ih =>
      exact congrArg Truth.negated (ih fun inside short => same inside (Nat.lt_succ_of_lt short))
  | case2 tokens notNot inside enclosed =>
      rw [factor, factor, enclosed]
      · exact same inside (enclosed?_length enclosed)
      · exact notNot
      · exact notNot
  | case3 tokens notNot open_ =>
      rw [factor, factor, open_]
      · exact notNot
      · exact notNot

theorem alternatives_congr (same : ∀ inside, inside.length < tokens.length → nested inside = other inside) :
    alternatives atoms nested tokens = alternatives atoms other tokens := by
  refine List.map_congr_left fun part partMember => congrArg Truth.conjunction (List.map_congr_left fun piece member => ?_)
  have short := Nat.le_trans (partsBetween_length member) (partsBetween_length partMember)
  exact factor_congr fun inside less => same inside (Nat.lt_of_lt_of_le less short)

theorem truthWithin_eq {depth : Nat} (enough : tokens.length < depth) :
    truthWithin atoms depth tokens = truth atoms tokens := by
  suffices alike : ∀ depth further tokens, tokens.length < depth → tokens.length < further →
      truthWithin atoms depth tokens = truthWithin atoms further tokens from
    alike depth _ tokens enough (Nat.lt_succ_self _)
  intro depth
  induction depth with
  | zero => exact fun _ _ none => absurd none (Nat.not_lt_zero _)
  | succ depth ih =>
      intro further tokens enough also
      obtain ⟨further, rfl⟩ := Nat.exists_eq_add_one_of_ne_zero (Nat.ne_of_gt (Nat.zero_lt_of_lt also))
      refine congrArg Truth.disjunction (alternatives_congr fun inside short => ?_)
      exact ih further inside (by omega) (by omega)

theorem truth_eq (atoms : List Token → Truth) (tokens : List Token) :
    truth atoms tokens = Truth.disjunction (alternatives atoms (truth atoms) tokens) :=
  congrArg Truth.disjunction (alternatives_congr fun _ short => truthWithin_eq short)

theorem factor_enclosed (within : IsClosed tokens) :
    factor atoms nested (.symbol .opening :: tokens ++ [.symbol .closing]) = nested tokens := by
  have enclosed := within.enclosed?
  rw [List.cons_append] at enclosed ⊢
  rw [factor, enclosed]
  exact fun _ => nofun

/-- Tokens that stand between any connectives as they are, and what they say there. -/
structure IsFactor (atoms : List Token → Truth) (tokens : List Token) (t : Truth) : Prop where
  whole : ∀ connective : Connective, IsWhole (· == connective.operator.token) tokens
  means : factor atoms (truth atoms) tokens = t

/-- Tokens that stand between any two `OR`, and what they say there. -/
structure IsAlternative (atoms : List Token → Truth) (tokens : List Token) (t : Truth) : Prop where
  whole : IsWhole (· == .keyword .or) tokens
  means : alternative atoms (truth atoms) tokens = t

section Levels

variable {t u : Truth} {before after : List Token}

theorem IsFactor.isAlternative (isFactor : IsFactor atoms tokens t) : IsAlternative atoms tokens t := by
  have uncut : partsBetween (.keyword .and) tokens = [tokens] := partsBetween_whole (isFactor.whole .and)
  refine ⟨isFactor.whole .or, ?_⟩
  rw [alternative, uncut, List.map_singleton, isFactor.means]
  exact Truth.conjunction_single t

theorem IsAlternative.alone (isAlternative : IsAlternative atoms tokens t) : alternatives atoms (truth atoms) tokens = [t] := by
  rw [alternatives, partsBetween_whole isAlternative.whole, List.map_singleton, isAlternative.means]

theorem IsAlternative.truth (isAlternative : IsAlternative atoms tokens t) : truth atoms tokens = t := by
  rw [truth_eq, isAlternative.alone]
  exact Truth.disjunction_single t

theorem IsFactor.negated (isFactor : IsFactor atoms tokens t) : IsFactor atoms (.keyword .not :: tokens) t.negated := by
  refine ⟨fun connective => .cons ?_ rfl (isFactor.whole connective), congrArg Truth.negated isFactor.means⟩
  cases connective <;> rfl

theorem IsFactor.bracketed (within : IsClosed tokens) :
    IsFactor atoms (.symbol .opening :: tokens ++ [.symbol .closing]) (Reader.truth atoms tokens) :=
  ⟨fun connective => within.whole_bracketed (by cases connective <;> rfl), factor_enclosed within⟩

theorem IsAlternative.and (closed : IsClosed before) (first : IsAlternative atoms before t)
    (second : IsAlternative atoms after u) : IsAlternative atoms (before ++ .keyword .and :: after) (t.and u) := by
  refine ⟨first.whole.append (.cons rfl rfl second.whole), ?_⟩
  rw [alternative, partsBetween, closed.partsFrom_append rfl, List.map_append, Truth.conjunction_append]
  exact congrArg₂ Truth.and first.means second.means

theorem truth_or (closed : IsClosed before) :
    Reader.truth atoms (before ++ .keyword .or :: after) = (Reader.truth atoms before).or (Reader.truth atoms after) := by
  rw [truth_eq, truth_eq, truth_eq, alternatives, partsBetween, closed.partsFrom_append rfl, List.map_append,
    Truth.disjunction_append]
  rfl

end Levels

end Reader

end Sql

end ViewEngine
