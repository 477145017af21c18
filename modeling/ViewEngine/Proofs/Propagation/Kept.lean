import ViewEngine.Proofs.Propagation.Edits
import ViewEngine.View.Planning

namespace ViewEngine

theorem runSteps_preserves {α σ ε : Type} {step : α → σ → σ × Except ε Unit} {items : List α}
    {state : σ} (holds : σ → Prop)
    (preserved : ∀ item ∈ items, ∀ state, holds state → holds (step item state).1) (initial : holds state) :
    holds (runSteps step items state).1 := by
  induction items generalizing state with
  | nil => exact initial
  | cons item rest ih =>
      have stepped := preserved item (List.mem_cons_self ..) state initial
      unfold runSteps
      split
      next next same =>
        rw [same] at stepped
        exact ih (fun other member => preserved other (List.mem_cons_of_mem _ member)) stepped
      next => exact stepped

namespace ViewRow

/-- The node and the property that a pair of join columns writes, if it writes one. -/
def receiver? (entry : JoinEntry) (node : String) (pair : JoinColumn) : Option (String × String) :=
  match entry.sourceEntity.column? pair.source, entry.entity.column? pair.target with
  | some upper, some lower =>
    if upper.primaryKey && lower.primaryKey then none
    else if upper.primaryKey then some (node, lower.property)
    else some (Path.node node, upper.property)
  | _, _ => none

/-- The places in a row that take values over from a neighbouring node. -/
def receivers (plan : JoinPlan) (r : ViewRow) : List Place :=
  r.changedNodes.flatMap fun node =>
    (plan.atPath? (Path.withoutPositions node)).toList.flatMap fun entry =>
      entry.subject.joinColumns.filterMap fun pair =>
        (receiver? entry node pair).bind fun (node, property) => Path.place? node property

variable {r : ViewRow} {strict : Bool} {plan : JoinPlan} {value : Value} {place : Place}

theorem receiver?_cases {entry : JoinEntry} {node above property : String} {pair : JoinColumn}
    (receives : receiver? entry node pair = some (above, property)) :
    (above = node ∧ ∃ a ∈ entry.entity.column? pair.target, a.property = property) ∨
      (above = Path.node node ∧ ∃ a ∈ entry.sourceEntity.column? pair.source, a.property = property) := by
  unfold receiver? at receives
  split at receives
  next upper lower foundUpper foundLower =>
    split at receives
    · cases receives
    · split at receives
      · cases receives
        exact .inl ⟨rfl, lower, foundLower, rfl⟩
      · cases receives
        exact .inr ⟨rfl, upper, foundUpper, rfl⟩
  next => cases receives

theorem propagatePair_cases (strict : Bool) (entry : JoinEntry) (path node : String) (pair : JoinColumn)
    (r : ViewRow) : (propagatePair strict entry path node pair r).1 = r ∨
      ∃ receiver property value, receiver? entry node pair = some (receiver, property) ∧
        (propagatePair strict entry path node pair r).1 = (r.assign receiver property value).1 := by
  unfold propagatePair
  split
  · exact .inl rfl
  · exact .inl rfl
  next upper lower foundUpper foundLower =>
    have receiver : receiver? entry node pair =
        if upper.primaryKey && lower.primaryKey then none
        else if upper.primaryKey then some (node, lower.property)
        else some (Path.node node, upper.property) := by
      simp only [receiver?, foundUpper, foundLower]
    split
    · exact .inl rfl
    next distinct =>
      rw [if_neg distinct] at receiver
      dsimp only
      split
      · exact .inl rfl
      · exact .inl rfl
      · split
        · exact .inl rfl
        · split
          next primary =>
            rw [if_pos primary] at receiver
            split
            · exact .inr ⟨_, _, _, receiver, rfl⟩
            · exact .inl rfl
          next dependent =>
            rw [if_neg dependent] at receiver
            split
            · exact .inr ⟨_, _, _, receiver, rfl⟩
            · exact .inl rfl

/-- Taking keys over preserves what assignments to receivers of join columns preserve. -/
theorem propagate_preserves_received {holds : ViewRow → Prop}
    (preserved : ∀ state node entry pair receiver property value, holds state → node ∈ r.changedNodes →
      plan.atPath? (Path.withoutPositions node) = some entry → pair ∈ entry.subject.joinColumns →
      receiver? entry node pair = some (receiver, property) → holds (state.assign receiver property value).1)
    (initial : holds r) : holds (r.propagate strict plan).1 := by
  unfold propagate
  refine runSteps_preserves holds (fun node isChanged state before => ?_) initial
  unfold propagateNode
  simp only
  cases found : plan.atPath? (Path.withoutPositions node) with
  | none => exact before
  | some entry =>
      refine runSteps_preserves holds (fun pair joined state before => ?_) before
      rcases propagatePair_cases strict entry (Path.withoutPositions node) node pair state with
        same | ⟨receiver, property, given, writes, same⟩
      · rwa [same]
      · rw [same]
        exact preserved state node entry pair receiver property given before isChanged found joined writes

/-- Taking keys over preserves what assignments at the places that take values over preserve. -/
theorem propagate_preserves {holds : ViewRow → Prop}
    (preserved : ∀ state node property value, holds state →
      (∀ place, Path.place? node property = some place → place ∈ r.receivers plan) →
      holds (state.assign node property value).1)
    (initial : holds r) : holds (r.propagate strict plan).1 := by
  refine propagate_preserves_received (fun state node entry pair receiver property given before isChanged found joined
    writes => preserved state receiver property given before fun place placed => ?_) initial
  refine List.mem_flatMap.mpr ⟨node, isChanged, List.mem_flatMap.mpr ⟨entry, ?_, ?_⟩⟩
  · rw [found]
    exact List.mem_singleton_self _
  · exact List.mem_filterMap.mpr ⟨pair, joined, by rw [writes]; exact placed⟩

/-- Taking keys over leaves alone what the places that take values over spare. -/
theorem stands_propagate (stands : (Value.row r.data).atPlace? place = some value)
    (spared : ∀ changed ∈ r.receivers plan, changed.Spares place value) :
    (Value.row (r.propagate strict plan).1.data).atPlace? place = some value := by
  refine @propagate_preserves r strict plan (fun r => (Value.row r.data).atPlace? place = some value) ?_ stands
  exact fun state node property given stands receives =>
    stands_assign_of_spared stands fun changed placed => spared changed (receives changed placed)

theorem propagateAll_rows (strict : Bool) (plan : JoinPlan) (rows : List ViewRow) :
    List.Forall₂ (fun r after => after = r ∨ after = (r.propagate strict plan).1) rows
      (propagateAll strict plan rows).1 := by
  induction rows with
  | nil => exact .nil
  | cons r rest ih =>
      have first (outcome : ViewRow × Except ViewError Unit)
          (same : (if r.isNew then (r, .ok ()) else r.propagate strict plan) = outcome) :
          outcome.1 = r ∨ outcome.1 = (r.propagate strict plan).1 := by
        rw [← same]
        split
        · exact .inl rfl
        · exact .inr rfl
      have left : List.Forall₂ (fun r after => after = r ∨ after = (r.propagate strict plan).1) rest rest :=
        List.forall₂_same.mpr fun r _ => .inl rfl
      unfold propagateAll
      simp only
      split
      · exact .cons (first _ rfl) ih
      · exact .cons (first _ rfl) left

theorem propagateAll_length (rows : List ViewRow) : (propagateAll strict plan rows).1.length = rows.length :=
  (propagateAll_rows strict plan rows).length_eq.symm

end ViewRow

end ViewEngine
