import ViewEngine.Proofs.Propagation.Kept

namespace ViewEngine

open Value

def Path.nodePlace? (node : String) : Option Place :=
  if node.isEmpty then some [] else (read node).toOption.map (·.flatMap PathStep.place)

theorem Path.place?_eq (node property : String) :
    place? node property = (nodePlace? node).map (· ++ [.property property]) := by
  unfold place? nodePlace?
  split
  · rfl
  · rw [Option.map_map]
    rfl

namespace Row

variable {row fields : Row} {steps : List PathStep} {node property : String} {value : Value} {place : Place}

theorem row_of_set {items : List Value} {position : Nat} {item changed : Value} {below : Place}
    (found : items[position]? = some item) (stands : (Value.list items).atPlace? below = some (.row fields))
    (inside : ∀ deeper, below = .position position :: deeper → item.atPlace? deeper = some (.row fields) →
      ∃ after, changed.atPlace? deeper = some (.row after)) :
    ∃ after, (Value.list (items.set position changed)).atPlace? below = some (.row after) := by
  match below with
  | [] => simp [atPlace?] at stands
  | .property _ :: _ => simp [atPlace?] at stands
  | .position number :: deeper =>
      simp only [atPlace?] at stands ⊢
      by_cases same : number = position
      · subst same
        obtain ⟨bound, -⟩ := List.getElem?_eq_some_iff.mp found
        rw [found, Option.bind_some] at stands
        rw [List.getElem?_set_self bound, Option.bind_some]
        exact inside deeper rfl stands
      · exact ⟨fields, by rwa [List.getElem?_set_ne (Ne.symm same)]⟩

theorem row_of_alterAlong (stands : (Value.row row).atPlace? place = some (.row fields))
    (aside : ¬ Path.placeOf steps property <+: place) : ∃ changed,
      (Value.row (row.alterAlong (Keyed.insert property value ·) steps).1).atPlace? place = some (.row changed) := by
  induction steps generalizing row place with
  | nil =>
      rcases place with _ | ⟨name | _, rest⟩
      · exact ⟨_, rfl⟩
      · by_cases same : name = property
        · subst same
          exact absurd (List.cons_prefix_cons.mpr ⟨rfl, List.nil_prefix⟩) aside
        · exact ⟨fields, by rwa [alterAlong, atPlace?_insert_of_ne same]⟩
      · exact ⟨_, stands⟩
  | cons step rest ih =>
      have entered {held : Value} {below : Place} (stands : held.atPlace? below = some (.row fields))
          (aside : ¬ Path.placeOf rest property <+: below) : ∃ changed,
          (enterAssociation (alterAlong (Keyed.insert property value ·) rest) held).1.atPlace? below =
            some (.row changed) := by
        cases held with
        | row fields => exact ih stands aside
        | null =>
            cases below with
            | nil => simp [atPlace?] at stands
            | cons _ _ => simp [atPlace?] at stands
        | _ => exact ⟨_, stands⟩
      obtain ⟨key, position⟩ := step
      rw [Path.placeOf_cons] at aside
      rcases place with _ | ⟨name | _, below⟩
      · exact ⟨_, rfl⟩
      · unfold alterAlong
        simp only
        by_cases same : name = key
        · subst same
          rw [atPlace?_insert_self]
          have stands := atPlace?_property stands
          rw [List.cons_prefix_cons] at aside
          have aside := fun leads => aside ⟨rfl, leads⟩
          generalize (Keyed.get? row name).getD .null = held at stands ⊢
          cases position with
          | none => exact entered stands aside
          | some position =>
              cases held with
              | list items =>
                  simp only
                  cases found : items[position]? with
                  | none => exact ⟨_, stands⟩
                  | some item =>
                      refine row_of_set found stands fun deeper isBelow stands => entered stands fun leads => ?_
                      exact aside (isBelow ▸ List.cons_prefix_cons.mpr ⟨rfl, leads⟩)
              | _ => exact ⟨_, stands⟩
        · exact ⟨fields, by rwa [atPlace?_insert_of_ne same]⟩
      · exact ⟨_, stands⟩

theorem nodeAt_of_row (placed : Path.nodePlace? node = some place)
    (stands : (Value.row row).atPlace? place = some (.row fields)) : row.nodeAt node = .ok (some fields) := by
  unfold Path.nodePlace? at placed
  unfold nodeAt
  split at placed
  next root =>
    cases placed
    rw [if_pos root]
    cases stands
    rfl
  next below =>
    rw [if_neg below]
    obtain ⟨steps, parsed, rfl⟩ := Option.map_eq_some_iff.mp placed
    rw [eq_ok_of_toOption parsed]
    simp [Except.bind, follow_of_row stands, Except.mapError]

/-- A node stays a node when a value is put into another one, unless it takes the place of a row above. -/
theorem row_of_alterNode (stands : (Value.row row).atPlace? place = some (.row fields))
    (aside : ∀ changed, Path.place? node property = some changed → ¬ changed <+: place) : ∃ changed,
      (Value.row (row.alterNode node (Keyed.insert property value ·)).1).atPlace? place = some (.row changed) := by
  rcases alterNode_cases row node (Keyed.insert property value ·) with ⟨steps, placed, same, -⟩ | ⟨same, -⟩
  · rw [same]
    exact row_of_alterAlong stands (aside _ (placed property))
  · exact ⟨fields, same.symm ▸ stands⟩

end Row

namespace ViewRow

variable {r : ViewRow} {strict : Bool} {plan : JoinPlan} {node property : String} {value : Value} {place : Place}

theorem assign_changed {path : String} (changed : path ∈ r.changed) :
    path ∈ (r.assign node property value).1.changed := by
  unfold assign
  split
  · exact Names.mem_insert.mpr (.inr changed)
  · exact changed

/-- What has been changed stays so while keys are taken over. -/
theorem changed_propagate {path : String} (changed : path ∈ r.changed) :
    path ∈ (r.propagate strict plan).1.changed :=
  @propagate_preserves r strict plan (fun r => path ∈ r.changed)
    (fun _ _ _ _ changed _ => assign_changed changed) changed

/-- A node stays while keys are taken over, unless they are taken over on the way to it. -/
theorem node_propagate {fields : Row} (placed : Path.nodePlace? node = some place)
    (stands : (Value.row r.data).atPlace? place = some (.row fields))
    (aside : ∀ changed ∈ r.receivers plan, ¬ changed <+: place) :
    ∃ data, (r.propagate strict plan).1.data.nodeAt node = .ok (some data) := by
  obtain ⟨data, stands⟩ := @propagate_preserves r strict plan
    (fun r => ∃ fields, (Value.row r.data).atPlace? place = some (.row fields))
    (fun state node property value ⟨fields, stands⟩ receives => by
      rw [assign_data]
      exact Row.row_of_alterNode stands fun changed given => aside changed (receives changed given)) ⟨fields, stands⟩
  exact ⟨data, Row.nodeAt_of_row placed stands⟩

end ViewRow

end ViewEngine
