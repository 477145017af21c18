import ViewEngine.Proofs.Compilation.Projected
import ViewEngine.Proofs.Conditions.Meaning

namespace ViewEngine

open Sql Expr

namespace Sql

namespace Expr

theorem asConjunct_bracketed {expr : Expr} (bracketed : expr.IsBracketed) :
    expr.asConjunct.IsBracketed ∧ expr.asConjunct.level ≤ 4 := by
  unfold asConjunct
  split
  next disjunction =>
    cases expr with
    | binary operator left right => exact ⟨bracketed, Nat.zero_le 4⟩
    | _ => cases disjunction
  next other =>
    refine ⟨bracketed, Nat.le_of_lt_succ (Nat.lt_of_le_of_ne (Nat.le_of_lt_succ (level_lt expr)) fun top => ?_)⟩
    obtain ⟨left, right, rfl⟩ := eq_binary_of_level (.inl rfl) top
    exact other rfl

variable {expr : Expr} {meaning : Meaning}

theorem Means.asConjunct (means : expr.Means meaning) : expr.asConjunct.Means meaning := by
  refine ⟨(asConjunct_bracketed means.bracketed).1, fun c frame => ?_⟩
  rw [written, asConjunct_mapLiterals, eval_asConjunct]
  exact means.truth c frame

theorem Means.parenthesized (means : expr.Means meaning) : expr.parenthesized.Means meaning := by
  constructor
  · cases expr <;> exact means.bracketed
  · intro c frame
    rw [written, parenthesized_mapLiterals, eval_parenthesized]
    exact means.truth c frame

theorem Means.and {left right : Expr} {first second : Meaning} (leftMeans : left.Means first)
    (rightMeans : right.Means second) (leftLow : left.level ≤ 4) (rightLow : right.level ≤ 4) :
    (binary .and left right).Means fun c frame => (first c frame).and (second c frame) := by
  refine ⟨⟨leftMeans.bracketed, rightMeans.bracketed, leftLow, rightLow⟩, fun c frame => ?_⟩
  exact (Value.truth_value _).trans (congrArg₂ Truth.and (leftMeans.truth c frame) (rightMeans.truth c frame))

theorem Means.or {left right : Expr} {first second : Meaning} (leftMeans : left.Means first)
    (rightMeans : right.Means second) :
    (binary .or left right).Means fun c frame => (first c frame).or (second c frame) := by
  refine ⟨⟨leftMeans.bracketed, rightMeans.bracketed, Nat.le_of_lt_succ (level_lt left),
    Nat.le_of_lt_succ (level_lt right)⟩, fun c frame => ?_⟩
  exact (Value.truth_value _).trans (congrArg₂ Truth.or (leftMeans.truth c frame) (rightMeans.truth c frame))

end Expr

namespace Condition

def isOr : Condition → Bool
  | .mark .or => true
  | _ => false

def predicate? : Condition → Option Expr
  | .predicate expr => some expr
  | .mark _ => none

/-- A list that says all of what is meant: its predicates do, and no mark says `or`. -/
structure AreMeant (conditions : List Condition) (meanings : List Meaning) : Prop where
  marks : ∀ condition ∈ conditions, condition.isOr = false
  predicates : List.Forall₂ Expr.Means (conditions.filterMap predicate?) meanings

theorem AreMeant.nil : AreMeant [] [] :=
  ⟨fun _ none => absurd none List.not_mem_nil, .nil⟩

theorem AreMeant.append {conditions others : List Condition} {meanings further : List Meaning}
    (first : AreMeant conditions meanings) (second : AreMeant others further) :
    AreMeant (conditions ++ others) (meanings ++ further) := by
  constructor
  · intro condition member
    exact (List.mem_append.mp member).elim (first.marks condition) (second.marks condition)
  · rw [List.filterMap_append]
    exact List.rel_append first.predicates second.predicates

theorem AreMeant.single {expr : Expr} {meaning : Meaning} (means : expr.Means meaning) :
    AreMeant [.predicate expr] [meaning] := by
  refine ⟨fun condition member => ?_, .cons means .nil⟩
  rw [List.mem_singleton.mp member]
  rfl

theorem foldOnto_means {conditions : List Condition} (marks : ∀ condition ∈ conditions, condition.isOr = false)
    {meanings : List Meaning} (predicates : List.Forall₂ Expr.Means (conditions.filterMap predicate?) meanings)
    {joined : Expr} {meaning : Meaning} (means : joined.Means meaning) (low : joined.level ≤ 4) :
    ∃ folded, foldOnto (some joined) .and conditions = some folded ∧
      folded.Means fun c frame => (meaning c frame).and (Truth.conjunction (meanings.map (· c frame))) := by
  induction conditions generalizing joined meaning meanings with
  | nil =>
      cases predicates
      refine ⟨joined, rfl, means.bracketed, fun c frame => (means.truth c frame).trans ?_⟩
      rcases meaning c frame with _ | _ | _ <;> rfl
  | cons condition rest ih =>
      rw [List.forall_mem_cons] at marks
      cases condition with
      | mark connective =>
          cases connective with
          | and => exact ih marks.2 predicates means low
          | or => cases marks.1
      | predicate expr =>
          cases predicates with
          | @cons _ next _ further exprMeans others =>
              have both := means.and exprMeans.asConjunct low (asConjunct_bracketed exprMeans.bracketed).2
              obtain ⟨folded, isFolded, foldedMeans⟩ := ih marks.2 others both (Nat.le_refl 4)
              refine ⟨folded, isFolded, foldedMeans.bracketed, fun c frame => (foldedMeans.truth c frame).trans ?_⟩
              exact Truth.and_assoc ..

/-- What is left of a list of conditions in the end says all of what is meant. -/
theorem AreMeant.fold? {conditions : List Condition} {meanings : List Meaning} (meant : AreMeant conditions meanings) :
    (fold? conditions = none ∧ meanings = []) ∨ ∃ folded, fold? conditions = some folded ∧
      folded.Means fun c frame => Truth.conjunction (meanings.map (· c frame)) := by
  obtain ⟨marks, predicates⟩ := meant
  induction conditions with
  | nil =>
      cases predicates
      exact .inl ⟨rfl, rfl⟩
  | cons condition rest ih =>
      rw [List.forall_mem_cons] at marks
      cases condition with
      | mark connective =>
          cases connective with
          | and => exact ih marks.2 predicates
          | or => cases marks.1
      | predicate expr =>
          cases predicates with
          | @cons _ meaning _ further means others =>
              exact .inr (foldOnto_means marks.2 others means.asConjunct (asConjunct_bracketed means.bracketed).2)

end Condition

end Sql

namespace Entity

def versionMeaning? (e : Entity) (pointInTime : Option Timestamp) : Option Meaning :=
  e.version.bind fun version =>
    version.opening.column.bind fun opening => version.closing.column.map fun closing c frame =>
      let isOpen := some (frame.rows 0 closing).isNull
      match pointInTime with
      | none => isOpen
      | some t =>
        (c.compare (· != .gt) (frame.rows 0 opening) (version.opening.columnType.operand (.timestamp t))).and
          ((c.compare (· == .gt) (frame.rows 0 closing) (version.closing.columnType.operand (.timestamp t))).or isOpen)

def discriminatorMeaning? (e : Entity) : Option Meaning :=
  e.discriminator.bind fun d =>
    d.subject.column.map fun column c frame =>
      c.equal (frame.rows 0 column) (d.subject.columnType.operand d.value)

def subtypeMeaning? (roots : List Entity) : Option Meaning :=
  (roots.mapM discriminatorMeaning?).map fun meanings c frame => Truth.disjunction (meanings.map (· c frame))

/-- What is asked of the rows of the roots beside the predicates. -/
def rootMeanings (root : Entity) (others : List Entity) (pointInTime : Option Timestamp) : List Meaning :=
  (root.versionMeaning? pointInTime).toList ++ (subtypeMeaning? (root :: others)).toList

def rootKeyValue (e : Entity) (delimiter : String) (c : Collation) (record : Record) : Value :=
  match e.identityKeys.filterMap (·.column) with
  | [] => .null
  | [single] => record single
  | first :: rest =>
    rest.foldl (fun joined column =>
      c.joinedText (c.joinedText joined (.text delimiter)) (c.castText (record column))) (c.castText (record first))

/-- The row belongs to a root row with one of the keys. -/
def keyMeaning (e : Entity) (delimiter : String) (keys : List Value) : Meaning :=
  fun c frame => c.oneOf (e.rootKeyValue delimiter c (frame.rows 0)) (keys.map e.rootKeyType.operand)

variable {roots : List Entity}

theorem compared_means (operator : Operator) (column : String) (type : ColumnType) (value : Value) {meaning : Meaning}
    (left : operator.leftLevel = 1) (right : operator.rightLevel = 1)
    (same : ∀ c frame, (operator.apply c (frame.rows 0 column) (type.operand value)).truth = meaning c frame) :
    (binary operator (.columnOf 0 column) (type.literal value)).Means meaning :=
  ⟨⟨trivial, trivial, left ▸ Nat.zero_le 1, right ▸ Nat.zero_le 1⟩, same⟩

theorem isNull_means (column : String) :
    (Expr.columnOf 0 column).isNull.Means fun _ frame => some (frame.rows 0 column).isNull :=
  ⟨⟨trivial, Nat.zero_le 1⟩, fun _ _ => congrArg some (Bool.bne_false _)⟩

theorem versionConstraint_means (e : Entity) (pointInTime : Option Timestamp) :
    List.Forall₂ Means (e.versionConstraint? pointInTime 0).toList (e.versionMeaning? pointInTime).toList := by
  unfold versionConstraint? versionMeaning?
  cases e.version with
  | none => exact .nil
  | some version =>
      cases opens : version.opening.column with
      | none => simp [opens]
      | some opening =>
          cases closes : version.closing.column with
          | none => simp [opens, closes]
          | some closing =>
              simp only [opens, closes, Option.bind_some, Option.map_some]
              cases pointInTime with
              | none => exact .cons (isNull_means closing) .nil
              | some t =>
                  have began := compared_means .atMost opening version.opening.columnType (.timestamp t) rfl rfl
                    fun c frame => Value.truth_value (c.compare (· != .gt) _ _)
                  have lasts := compared_means .greater closing version.closing.columnType (.timestamp t) rfl rfl
                    fun c frame => Value.truth_value (c.compare (· == .gt) _ _)
                  exact .cons (began.and (lasts.or (isNull_means closing)).parenthesized (Nat.le_of_ble_eq_true rfl)
                    (Nat.zero_le 4)) .nil

theorem discriminatorConstraint_means (e : Entity) :
    Option.Rel Means (e.discriminatorConstraint? 0) e.discriminatorMeaning? := by
  unfold discriminatorConstraint? discriminatorMeaning?
  cases e.discriminator with
  | none => exact .none
  | some d =>
      cases found : d.subject.column with
      | none =>
          simp only [found, Option.map_none, Option.bind_some]
          exact .none
      | some column =>
          simp only [found, Option.map_some, Option.bind_some]
          exact .some (compared_means .equal column d.subject.columnType d.value rfl rfl
            fun c frame => Value.truth_value (c.equal _ _))

theorem discriminatorConstraints_mean (roots : List Entity) : Option.Rel (List.Forall₂ Means)
    (roots.mapM fun (e : Entity) => e.discriminatorConstraint? 0) (roots.mapM discriminatorMeaning?) := by
  induction roots with
  | nil => exact .some .nil
  | cons e rest ih =>
      have related := discriminatorConstraint_means e
      rw [List.mapM_cons, List.mapM_cons]
      revert related ih
      generalize e.discriminatorConstraint? 0 = constraint
      generalize e.discriminatorMeaning? = meaning
      generalize rest.mapM (fun (e : Entity) => e.discriminatorConstraint? 0) = constraints
      generalize rest.mapM discriminatorMeaning? = meanings
      intro ih related
      cases related with
      | none => exact .none
      | some first =>
          cases ih with
          | none => exact .none
          | some others => exact .some (.cons first others)

theorem foldOnto_or {constraints : List Expr} {meanings : List Meaning}
    (each : List.Forall₂ Means constraints meanings) {joined : Expr} {meaning : Meaning} (means : joined.Means meaning) :
    ∃ folded, Condition.foldOnto (some joined) .and
        (constraints.flatMap fun constraint => [.mark .or, .predicate constraint]) = some folded ∧
      folded.Means fun c frame => (meaning c frame).or (Truth.disjunction (meanings.map (· c frame))) := by
  induction each generalizing joined meaning with
  | nil =>
      refine ⟨joined, rfl, means.bracketed, fun c frame => (means.truth c frame).trans ?_⟩
      rcases meaning c frame with _ | _ | _ <;> rfl
  | cons first _ ih =>
      obtain ⟨folded, isFolded, foldedMeans⟩ := ih (means.or first.asConjunct)
      exact ⟨folded, isFolded, foldedMeans.bracketed, fun c frame =>
        (foldedMeans.truth c frame).trans (Truth.or_assoc ..)⟩

theorem subtypeConstraint_means {conditions : List Condition} (nonempty : roots ≠ [])
    (found : subtypeConstraint? roots = some conditions) : ∃ folded meaning,
    Condition.fold? conditions = some folded ∧ subtypeMeaning? roots = some meaning ∧ folded.Means meaning := by
  obtain ⟨constraints, given, shape⟩ := Option.map_eq_some_iff.mp found
  have related := discriminatorConstraints_mean roots
  rw [given] at related
  cases asked : roots.mapM discriminatorMeaning? with
  | none => rw [asked] at related; cases related
  | some meanings =>
      rw [asked] at related
      cases related with
      | some each =>
          cases each with
          | nil =>
              cases roots with
              | nil => contradiction
              | cons e rest =>
                  rw [List.mapM_cons] at given
                  obtain ⟨first, -, given⟩ := Option.bind_eq_some_iff.mp given
                  obtain ⟨others, -, given⟩ := Option.bind_eq_some_iff.mp given
                  cases given
          | cons first others =>
              obtain ⟨folded, isFolded, means⟩ := foldOnto_or others first.asConjunct
              subst shape
              exact ⟨folded, _, isFolded, by rw [subtypeMeaning?, asked]; rfl, means⟩

theorem subtypeMeaning?_eq_none (missing : subtypeConstraint? roots = none) : subtypeMeaning? roots = none := by
  have related := discriminatorConstraints_mean roots
  rw [Option.map_eq_none_iff.mp missing] at related
  cases asked : roots.mapM discriminatorMeaning? with
  | none => exact Option.map_eq_none_iff.mpr asked
  | some meanings => rw [asked] at related; cases related

theorem subtypeMeaning?_single (root : Entity) : List.Forall₂ Means (root.discriminatorConstraint? 0).toList
    (subtypeMeaning? [root]).toList := by
  have related := discriminatorConstraint_means root
  have single : subtypeMeaning? [root] =
      root.discriminatorMeaning?.map fun meaning c frame => (meaning c frame).or (some false) := by
    unfold subtypeMeaning?
    rw [List.mapM_cons, List.mapM_nil]
    cases root.discriminatorMeaning? <;> rfl
  rw [single]
  cases found : root.discriminatorConstraint? 0 with
  | none =>
      rw [found] at related
      cases asked : root.discriminatorMeaning? with
      | none => exact .nil
      | some meaning => rw [asked] at related; cases related
  | some constraint =>
      rw [found] at related
      cases asked : root.discriminatorMeaning? with
      | none => rw [asked] at related; cases related
      | some meaning =>
          rw [asked] at related
          cases related with
          | some means =>
              refine .cons ⟨means.bracketed, fun c frame => (means.truth c frame).trans ?_⟩ .nil
              dsimp only
              rcases meaning c frame with _ | _ | _ <;> rfl

theorem areMeant_of_toList {constraint : Option Expr} {meanings : List Meaning}
    (means : List.Forall₂ Means constraint.toList meanings) :
    Condition.AreMeant (constraint.toList.map .predicate) meanings := by
  cases constraint with
  | none =>
      cases means
      exact .nil
  | some expr =>
      cases means with
      | cons first rest =>
          cases rest
          exact .single first

/-- The constraints on the rows of the roots add conditions that say what is asked of these rows. -/
theorem constrainRoot_conditions (root : Entity) (others : List Entity) (pointInTime : Option Timestamp)
    (s : Statement) : ∃ added,
    root.constrainRoot others pointInTime s = { s with conditions := s.conditions ++ added } ∧
      Condition.AreMeant added (root.rootMeanings others pointInTime) := by
  have versioned := areMeant_of_toList (versionConstraint_means root pointInTime)
  cases others with
  | nil =>
      exact ⟨_, constrainRoot_single root pointInTime s,
        versioned.append (areMeant_of_toList (subtypeMeaning?_single root))⟩
  | cons other rest =>
      refine ⟨_, constrainRoot_several root other rest pointInTime s, versioned.append ?_⟩
      cases found : subtypeConstraint? (root :: other :: rest) with
      | none =>
          rw [subtypeMeaning?_eq_none found]
          exact .nil
      | some conditions =>
          obtain ⟨folded, meaning, isFolded, isMeaning, means⟩ := subtypeConstraint_means (by simp) found
          have joined : Condition.AreMeant [.mark .and, .predicate folded.parenthesized] [meaning] := by
            refine ⟨fun condition member => ?_, .cons means.parenthesized .nil⟩
            simp only [List.mem_cons, List.not_mem_nil, or_false] at member
            rcases member with rfl | rfl <;> rfl
          rw [isMeaning, Option.bind_some, isFolded]
          exact joined

theorem joinedKeys_means (delimiter : String) (first : String) (rest : List String) : ∃ joined,
    joinedKeys delimiter (first :: rest) = some joined ∧ joined.IsBracketed ∧ joined.level ≤ 1 ∧
      ∀ c frame, joined.written.eval c frame = rest.foldl (fun joined column =>
        c.joinedText (c.joinedText joined (.text delimiter)) (c.castText (frame.rows 0 column)))
          (c.castText (frame.rows 0 first)) := by
  refine ⟨_, rfl, ?_⟩
  have each : ∀ (joined : Expr) (start : Collation → Frame → Value), joined.IsBracketed → joined.level ≤ 1 →
      (∀ c frame, joined.written.eval c frame = start c frame) →
      let all := rest.foldl (fun joined column =>
        (joined.concatenated (.string delimiter)).concatenated (.castText (.columnOf 0 column))) joined
      all.IsBracketed ∧ all.level ≤ 1 ∧ ∀ c frame, all.written.eval c frame = rest.foldl (fun joined column =>
        c.joinedText (c.joinedText joined (.text delimiter)) (c.castText (frame.rows 0 column))) (start c frame) := by
    induction rest with
    | nil => exact fun joined start bracketed low same => ⟨bracketed, low, same⟩
    | cons column rest ih =>
        intro joined start bracketed low same
        refine ih _ (fun c frame => c.joinedText (c.joinedText (start c frame) (.text delimiter))
          (c.castText (frame.rows 0 column))) ?_ (Nat.le_refl 1) fun c frame => ?_
        · exact ⟨⟨bracketed, trivial, low, Nat.zero_le 0⟩, trivial, Nat.le_refl 1, Nat.zero_le 0⟩
        · rw [← same]
          rfl
  exact each (.castText (.columnOf 0 first)) _ trivial (Nat.zero_le 1) fun _ _ => rfl

theorem rootKey_means (e : Entity) (delimiter : String) : (e.rootKey delimiter).IsBracketed ∧
    (e.rootKey delimiter).level ≤ 1 ∧
      ∀ c frame, (e.rootKey delimiter).written.eval c frame = e.rootKeyValue delimiter c (frame.rows 0) := by
  unfold rootKey rootKeyValue
  generalize e.identityKeys.filterMap (·.column) = columns
  match columns with
  | [] => exact ⟨trivial, Nat.zero_le 1, fun _ _ => rfl⟩
  | [single] => exact ⟨trivial, Nat.zero_le 1, fun _ _ => rfl⟩
  | first :: second :: rest =>
      obtain ⟨joined, isJoined, means⟩ := joinedKeys_means delimiter first (second :: rest)
      dsimp only
      rw [isJoined]
      exact means

theorem keyMembership_means (e : Entity) (delimiter : String) (keys : List Value) :
    (Expr.membership (e.rootKey delimiter) (keys.map e.rootKeyType.literal) false).Means
      (e.keyMeaning delimiter keys) := by
  obtain ⟨bracketed, low, same⟩ := rootKey_means e delimiter
  refine ⟨⟨bracketed, low, literals_bracketed e.rootKeyType keys⟩, fun c frame => ?_⟩
  rw [written, mapLiterals, eval, literals_written]
  refine (Value.truth_value _).trans ?_
  exact congrArg (c.oneOf · _) (same c frame)

end Entity

end ViewEngine
