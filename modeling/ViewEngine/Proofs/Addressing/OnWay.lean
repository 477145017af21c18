import ViewEngine.Proofs.Propagation.Places

namespace ViewEngine

namespace Value

inductive Entered : Option Value → Option Value → Prop
  | row (before after : Row) : Entered (some (.row before)) (some (.row after))
  | list {before after : List Value} (length : after.length = before.length) :
      Entered (some (.list before)) (some (.list after))
  | null (after : Row) : Entered (some .null) (some (.row after))
  | absent (after : Row) : Entered none (some (.row after))

inductive Touched : Option Value → Option Value → Prop
  | same (value : Option Value) : Touched value value
  | entered {before after : Option Value} (entered : Entered before after) : Touched before after
  | missing : Touched none (some .null)

theorem Touched.row (before after : Row) : Touched (some (.row before)) (some (.row after)) :=
  .entered (.row before after)

theorem Touched.of_null {after : Option Value} (touched : Touched (some .null) after) : Touched none after := by
  cases touched with
  | same => exact .missing
  | entered entered =>
      cases entered
      exact .entered (.absent _)

theorem Touched.entered_of_within {before after : Option Value} {rest : Place} {value : Value}
    (touched : Touched before after) (within : rest ≠ []) (stands : after.bind (·.atPlace? rest) = some value) :
    Entered before after := by
  obtain ⟨held, rfl, stands⟩ := Option.bind_eq_some_iff.mp stands
  obtain ⟨step, others, rfl⟩ := List.exists_cons_of_ne_nil within
  cases touched with
  | same =>
      cases held with
      | row fields => exact .row fields fields
      | list items => exact .list rfl
      | _ => simp [atPlace?] at stands
  | entered entered => exact entered
  | missing => cases step <;> contradiction

theorem atPlace?_null {place : Place} (below : place ≠ []) : Value.null.atPlace? place = none := by
  cases place with
  | nil => contradiction
  | cons step rest => cases step <;> rfl

theorem atPlace?_empty {place : Place} (below : place ≠ []) : (Value.row []).atPlace? place = none := by
  cases place with
  | nil => contradiction
  | cons step rest => cases step <;> rfl

end Value

namespace Row

open Value

variable {row : Row} {steps rest : List PathStep} {property name : String} {value held : Value} {place below : Place}
  {change : Row → Row}

theorem atPlace?_property_of_ne_nil (within : below ≠ []) :
    (Value.row row).atPlace? (.property name :: below) = ((Keyed.get? row name).getD .null).atPlace? below := by
  rw [atPlace?]
  cases Keyed.get? row name with
  | none => exact (atPlace?_null within).symm
  | some held => rfl

theorem enterAssociation_cases (change : Row → Row × Except PathFault Unit) (held : Value) :
    (∃ fields, (held = .row fields ∨ (held = .null ∧ fields = [])) ∧
        enterAssociation change held = (.row (change fields).1, (change fields).2)) ∨
      ∃ fault, enterAssociation change held = (held, .error fault) := by
  cases held with
  | row fields => exact .inl ⟨fields, .inl rfl, rfl⟩
  | null => exact .inl ⟨[], .inr ⟨rfl, rfl⟩, rfl⟩
  | list items => exact .inr ⟨_, rfl⟩
  | _ => exact .inr ⟨_, rfl⟩

/-- A step leads on into the value under its property, or into an element of it, or fails there. -/
theorem alterAlong_cons_cases (change : Row → Row) (step : PathStep) (rest : List PathStep) (row : Row) :
    let enter := enterAssociation (alterAlong change rest)
    let held := (Keyed.get? row step.property).getD .null
    (step.position = none ∧
        alterAlong change (step :: rest) row = (row.insert step.property (enter held).1, (enter held).2)) ∨
      (∃ position items item, step.position = some position ∧ held = .list items ∧ items[position]? = some item ∧
        alterAlong change (step :: rest) row =
          (row.insert step.property (.list (items.set position (enter item).1)), (enter item).2)) ∨
      ∃ position fault, step.position = some position ∧ (∀ items, held = .list items → items[position]? = none) ∧
        alterAlong change (step :: rest) row = (row.insert step.property held, .error fault) := by
  intro enter held
  obtain ⟨name, position⟩ := step
  unfold alterAlong
  cases position with
  | none => exact .inl ⟨rfl, rfl⟩
  | some position =>
      refine .inr ?_
      generalize same : (Keyed.get? row name).getD .null = found
      cases found with
      | list items =>
          cases inside : items[position]? with
          | none =>
              refine .inr ⟨position, .positionOutOfRange, rfl, fun others isList => ?_, ?_⟩
              · cases same.symm.trans isList
                exact inside
              · simp only [held, same, inside]
          | some item => exact .inl ⟨position, items, item, rfl, same, inside, by simp only [inside]; rfl⟩
      | _ =>
          refine .inr ⟨position, .notACollection, rfl, fun others isList => ?_, by simp only [held, same]⟩
          cases same.symm.trans isList

theorem atPlace?_enterAssociation {outcome : Except PathFault Unit} (within : below ≠ [])
    (inside : ∀ fields, (alterAlong change rest fields).2 = outcome →
      (Value.row (alterAlong change rest fields).1).atPlace? below = (Value.row fields).atPlace? below)
    (result : (enterAssociation (alterAlong change rest) held).2 = outcome) :
    (enterAssociation (alterAlong change rest) held).1.atPlace? below = held.atPlace? below := by
  obtain ⟨fields, found, entered⟩ | ⟨fault, refused⟩ := enterAssociation_cases (alterAlong change rest) held
  · rw [entered] at result ⊢
    refine (inside fields result).trans ?_
    rcases found with rfl | ⟨rfl, rfl⟩
    · rfl
    · rw [atPlace?_empty within, atPlace?_null within]
  · rw [refused]

theorem atPlace?_set_of_same {items : List Value} {position : Nat} {item changed : Value}
    (inside : items[position]? = some item) (within : below ≠ [])
    (same : ∀ deeper, below = .position position :: deeper → changed.atPlace? deeper = item.atPlace? deeper) :
    (Value.list (items.set position changed)).atPlace? below = (Value.list items).atPlace? below := by
  rcases below with _ | ⟨_ | number, deeper⟩
  · contradiction
  · rfl
  · by_cases own : number = position
    · subst own
      obtain ⟨bound, -⟩ := List.getElem?_eq_some_iff.mp inside
      rw [atPlace?, atPlace?, List.getElem?_set_self bound, inside, Option.bind_some, Option.bind_some]
      exact same deeper rfl
    · rw [atPlace?, atPlace?, List.getElem?_set_ne (Ne.symm own)]

/-- What does not stand on the way is left alone, unless a value is put there. -/
theorem atPlace?_alterAlong_aside (aside : ¬ place <+: steps.flatMap PathStep.place)
    (unset : (∃ fault, (row.alterAlong (Keyed.insert property value ·) steps).2 = .error fault) ∨
      ¬ Path.placeOf steps property <+: place) :
    (Value.row (row.alterAlong (Keyed.insert property value ·) steps).1).atPlace? place =
      (Value.row row).atPlace? place := by
  induction steps generalizing row place with
  | nil =>
      rcases unset with ⟨fault, failed⟩ | apart
      · contradiction
      rcases place with _ | ⟨name | _, below⟩
      · exact absurd List.nil_prefix aside
      · refine atPlace?_insert_of_ne (fun same => apart ?_) ..
        exact List.cons_prefix_cons.mpr ⟨congrArg _ same.symm, List.nil_prefix⟩
      · rfl
  | cons step rest ih =>
      rw [List.flatMap_cons, PathStep.place, List.cons_append] at aside
      rw [Path.placeOf_cons] at unset
      rcases place with _ | ⟨name | _, below⟩
      · exact absurd List.nil_prefix aside
      · by_cases same : name = step.property
        · subst same
          rw [List.cons_prefix_cons] at aside unset
          simp only [true_and] at aside unset
          have within : below ≠ [] := by
            rintro rfl
            exact aside List.nil_prefix
          refine Eq.trans ?_ (atPlace?_property_of_ne_nil within).symm
          obtain ⟨plain, altered⟩ | ⟨position, items, item, chosen, held, inside, altered⟩ |
            ⟨position, fault, chosen, -, altered⟩ :=
              alterAlong_cons_cases (Keyed.insert property value ·) step rest row
          · rw [altered] at unset ⊢
            rw [atPlace?_insert_self]
            rw [plain] at aside unset
            refine atPlace?_enterAssociation within (fun fields result => ih aside ?_) rfl
            exact unset.imp_left fun failed => failed.imp fun fault failed => result.trans failed
          · rw [altered] at unset ⊢
            rw [atPlace?_insert_self, held]
            refine atPlace?_set_of_same inside within ?_
            rintro deeper rfl
            simp only [chosen, Option.toList_some, List.map_singleton, List.singleton_append, List.cons_prefix_cons,
              true_and] at aside unset
            have within : deeper ≠ [] := by
              rintro rfl
              exact aside List.nil_prefix
            refine atPlace?_enterAssociation within (fun fields result => ih aside ?_) rfl
            exact unset.imp_left fun failed => failed.imp fun fault failed => result.trans failed
          · rw [altered, atPlace?_insert_self]
        · obtain ⟨-, altered⟩ | ⟨_, _, _, -, -, -, altered⟩ | ⟨_, _, -, -, altered⟩ :=
            alterAlong_cons_cases (Keyed.insert property value ·) step rest row <;>
            rw [altered, atPlace?_insert_of_ne same]
      · rfl

theorem touched_property {after : Option Value}
    (touched : Touched (((Keyed.get? row name).getD .null).atPlace? below) after) :
    Touched ((Value.row row).atPlace? (.property name :: below)) after := by
  by_cases within : below = []
  · subst within
    rw [atPlace?]
    cases held : Keyed.get? row name with
    | none =>
        rw [held] at touched
        exact .of_null touched
    | some value =>
        rw [held] at touched
        exact touched
  · rwa [atPlace?_property_of_ne_nil within]

theorem touched_enterAssociation
    (inside : ∀ fields, Touched ((Value.row fields).atPlace? below)
      ((Value.row (alterAlong change rest fields).1).atPlace? below)) :
    Touched (held.atPlace? below) ((enterAssociation (alterAlong change rest) held).1.atPlace? below) := by
  obtain ⟨fields, found, entered⟩ | ⟨fault, refused⟩ := enterAssociation_cases (alterAlong change rest) held
  · rw [entered]
    rcases found with rfl | ⟨rfl, rfl⟩
    · exact inside fields
    · by_cases within : below = []
      · subst within
        exact .entered (.null _)
      · rw [atPlace?_null within, ← atPlace?_empty within]
        exact inside []
  · rw [refused]
    exact .same _

/-- What stands on the way is entered as far as the way leads. -/
theorem touched_alterAlong (change : Row → Row) (onWay : place <+: steps.flatMap PathStep.place) :
    Touched ((Value.row row).atPlace? place) ((Value.row (row.alterAlong change steps).1).atPlace? place) := by
  induction steps generalizing row place with
  | nil =>
      cases List.prefix_nil.mp onWay
      exact .row ..
  | cons step rest ih =>
      rw [List.flatMap_cons, PathStep.place, List.cons_append] at onWay
      cases place with
      | nil => exact .row ..
      | cons first below =>
          obtain ⟨rfl, leads⟩ := List.cons_prefix_cons.mp onWay
          refine touched_property ?_
          obtain ⟨plain, altered⟩ | ⟨position, items, item, chosen, held, inside, altered⟩ |
            ⟨position, fault, chosen, -, altered⟩ := alterAlong_cons_cases change step rest row
          · rw [altered, atPlace?_insert_self]
            rw [plain] at leads
            exact touched_enterAssociation fun fields => ih leads
          · rw [altered, atPlace?_insert_self, held]
            rw [chosen] at leads
            cases below with
            | nil => exact .entered (.list (List.length_set ..))
            | cons next deeper =>
                obtain ⟨rfl, deeperLeads⟩ := List.cons_prefix_cons.mp leads
                obtain ⟨bound, -⟩ := List.getElem?_eq_some_iff.mp inside
                simp only [atPlace?]
                rw [List.getElem?_set_self bound, inside, Option.bind_some, Option.bind_some]
                exact touched_enterAssociation fun fields => ih deeperLeads
          · rw [altered, atPlace?_insert_self]
            exact .same _

end Row

end ViewEngine
