import ViewEngine.Proofs.Propagation.Standing
import ViewEngine.Proofs.Settling.Settled
import ViewEngine.Proofs.Writing.Fetched
import ViewEngine.Proofs.Writing.Parameters

namespace ViewEngine

open Planning

namespace Row

open Value

variable {row fields : Row} {steps : List PathStep} {node property : String} {place : Place} {change : Row → Row}

theorem row_of_follow (found : row.follow steps = .ok (some fields)) :
    (Value.row row).atPlace? (steps.flatMap PathStep.place) = some (.row fields) := by
  induction steps generalizing row with
  | nil =>
      cases found
      rfl
  | cons step rest ih =>
      obtain ⟨name, position⟩ := step
      rw [List.flatMap_cons, PathStep.place, List.cons_append, atPlace?]
      unfold follow at found
      simp only at found
      cases held : Keyed.get? row name with
      | none =>
          rw [held] at found
          cases position <;> cases found
      | some value =>
          rw [held, Option.getD_some] at found
          rw [Option.bind_some]
          cases position with
          | none =>
              cases value with
              | row inner => exact ih found
              | null => cases found
              | _ => contradiction
          | some position =>
              cases value with
              | list items =>
                  simp only at found
                  rw [Option.toList_some, List.map_singleton, List.singleton_append, atPlace?]
                  cases item : items[position]? with
                  | none =>
                      rw [item] at found
                      contradiction
                  | some value =>
                      rw [item] at found
                      cases value with
                      | row inner => exact ih found
                      | null => cases found
                      | _ => contradiction
              | _ => contradiction

theorem exists_place_of_nodeAt (found : row.nodeAt node = .ok (some fields)) :
    ∃ place, Path.nodePlace? node = some place ∧ (Value.row row).atPlace? place = some (.row fields) := by
  unfold nodeAt at found
  unfold Path.nodePlace?
  split at found
  next root =>
    cases found
    exact ⟨[], if_pos root, rfl⟩
  next below =>
    rw [if_neg below]
    cases parsed : Path.read node with
    | error fault =>
        rw [parsed] at found
        contradiction
    | ok steps =>
        rw [parsed] at found
        refine ⟨_, rfl, row_of_follow ?_⟩
        change (row.follow steps).mapError _ = _ at found
        generalize row.follow steps = outcome at found ⊢
        cases outcome with
        | error fault => contradiction
        | ok there =>
            cases found
            rfl

theorem alterAlong_ok (stands : (Value.row row).atPlace? (steps.flatMap PathStep.place) = some (.row fields)) :
    (row.alterAlong change steps).2 = .ok () := by
  induction steps generalizing row with
  | nil => rfl
  | cons step rest ih =>
      obtain ⟨below, stands, -, altered⟩ := exists_row_below stands
      exact (altered change).trans (ih stands)

theorem alterNode_ok (placed : Path.nodePlace? node = some place)
    (stands : (Value.row row).atPlace? place = some (.row fields)) : (row.alterNode node change).2 = .ok () := by
  unfold Path.nodePlace? at placed
  unfold alterNode
  split at placed
  next root => rw [if_pos root]
  next below =>
    rw [if_neg below]
    obtain ⟨steps, parsed, rfl⟩ := Option.map_eq_some_iff.mp placed
    rw [eq_ok_of_toOption parsed]
    have altered : (row.alterAlong change _).2 = .ok () := alterAlong_ok stands
    simp only [Prod.map_snd, altered]
    rfl

end Row

namespace ViewRow

variable {r : ViewRow} {node property name : String} {place front : Place} {value other : Value}

theorem stands_settled (stands : (Value.row r.data).atPlace? place = some value)
    (unmarked : place.head? ≠ some (.property newRowMark)) (below : place ≠ []) :
    (Value.row r.settled.data).atPlace? place = some value := by
  match place with
  | .position _ :: _ => exact stands
  | .property name :: rest =>
      have different : name ≠ newRowMark := fun same => unmarked (same ▸ rfl)
      simp only [settled, Value.atPlace?, Keyed.get?_erase_of_ne different]
      exact stands

end ViewRow

namespace View

section Dated

variable {rows : List ViewRow} {row : Nat} {node property : String} {front : Place} {now : Timestamp}
  {next : Reopening} {reopened : List Reopening} {r : ViewRow} {data : Row}

theorem reopen_getElem? (standing : rows[row]? = some r) (now : Timestamp) (next : Reopening) :
    (reopen now rows next)[row]? = some (if next.row = row then
      { r with data := (r.data.alterNode next.node (Keyed.insert next.property (.timestamp now) ·)).1 } else r) := by
  rw [reopen, List.getElem?_modify, standing]
  rfl

def HasNode (rows : List ViewRow) (row : Nat) (front : Place) : Prop :=
  ∃ r fields, rows[row]? = some r ∧ (Value.row r.data).atPlace? front = some (.row fields)

/-- The time stands under a property of the row at a place. -/
def IsDated (now : Timestamp) (rows : List ViewRow) (row : Nat) (front : Place) (property : String) : Prop :=
  ∃ r, rows[row]? = some r ∧ (Value.row r.data).atPlace? (front ++ [.property property]) = some (.timestamp now)

def Aside (row : Nat) (front : Place) (property : String) (next : Reopening) : Prop :=
  next.row = row → ∀ changed, Path.place? next.node next.property = some changed →
    changed <+: front ++ [.property property] → changed = front ++ [.property property]

theorem HasNode.reopen (has : HasNode rows row front) (aside : Aside row front property next) (now : Timestamp) :
    HasNode (reopen now rows next) row front := by
  obtain ⟨r, fields, standing, stands⟩ := has
  have there := reopen_getElem? standing now next
  split at there
  next same =>
    obtain ⟨changed, stands⟩ := @Row.row_of_alterNode _ _ next.node next.property (.timestamp now) _ stands
      fun changed placed leads => by
        have whole := aside same changed placed (leads.trans (List.prefix_append ..))
        have short := leads.length_le
        rw [whole, List.length_append, List.length_singleton] at short
        omega
    exact ⟨_, changed, there, stands⟩
  next => exact ⟨r, fields, there, stands⟩

theorem isDated_reopen (has : HasNode rows row front) (placed : Path.nodePlace? node = some front)
    (now : Timestamp) : IsDated now (reopen now rows ⟨row, node, property⟩) row front property := by
  obtain ⟨r, fields, standing, stands⟩ := has
  refine ⟨_, reopen_getElem? standing .., ?_⟩
  rw [if_pos rfl]
  obtain ⟨place, isPlace, stands⟩ :=
    @Row.stands_alterNode _ _ property (.timestamp now) (Row.alterNode_ok placed stands)
  rw [Path.place?_eq, placed] at isPlace
  cases isPlace
  exact stands

theorem IsDated.hasNode (dated : IsDated now rows row front property) : HasNode rows row front := by
  obtain ⟨r, standing, stands⟩ := dated
  obtain ⟨held, above, stands⟩ := Option.bind_eq_some_iff.mp (Value.atPlace?_append .. ▸ stands)
  obtain ⟨fields, rfl⟩ := Row.row_of_atPlace? stands
  exact ⟨r, fields, standing, above⟩

theorem IsDated.reopen (dated : IsDated now rows row front property) (aside : Aside row front property next) :
    IsDated now (reopen now rows next) row front property := by
  obtain ⟨r, standing, stands⟩ := dated
  by_cases again : next.row = row ∧ Path.place? next.node next.property = some (front ++ [.property property])
  · obtain ⟨same, placed⟩ := again
    rw [Path.place?_eq] at placed
    obtain ⟨start, isNode, joined⟩ := Option.map_eq_some_iff.mp placed
    obtain ⟨rfl, last⟩ := List.append_inj' joined rfl
    obtain ⟨number, node, name⟩ := next
    cases last
    cases same
    exact isDated_reopen (IsDated.hasNode ⟨r, standing, stands⟩) isNode now
  · refine ⟨_, reopen_getElem? standing .., ?_⟩
    split
    next same =>
      refine Row.stands_alterNode_of_spared stands fun changed placed => ⟨fun leads => ?_, fun entered => ?_⟩
      · exact again ⟨same, aside same changed placed leads ▸ placed⟩
      · contradiction
    next => exact stands

theorem IsDated.foldl_reopen (dated : IsDated now rows row front property)
    (aside : ∀ next ∈ reopened, Aside row front property next) :
    IsDated now (reopened.foldl (View.reopen now) rows) row front property := by
  induction reopened generalizing rows with
  | nil => exact dated
  | cons first rest ih =>
      obtain ⟨first, later⟩ := List.forall_mem_cons.mp aside
      exact ih (dated.reopen first) later

theorem isDated_foldl (has : HasNode rows row front) (placed : Path.nodePlace? node = some front)
    (member : ⟨row, node, property⟩ ∈ reopened) (aside : ∀ next ∈ reopened, Aside row front property next) :
    IsDated now (reopened.foldl (View.reopen now) rows) row front property := by
  induction reopened generalizing rows with
  | nil => contradiction
  | cons first rest ih =>
      obtain ⟨isAside, later⟩ := List.forall_mem_cons.mp aside
      rcases List.mem_cons.mp member with rfl | member
      · exact (isDated_reopen has placed now).foldl_reopen later
      · exact ih (has.reopen isAside now) member later

end Dated

variable {v : View} {strict : Bool} {context : Context} {settings : ViewSettings} {plan : WritePlan}
  {writes : List Write} {w : Write} {origin : WriteOrigin} {row : Nat} {node property : String} {now : Timestamp}
  {front : Place} {reopened : List Reopening}

/-- A node that has been dated holds the time of the flush once the view is settled. -/
theorem holds_reconcile (has : HasNode v.rows row front) (placed : Path.nodePlace? node = some front)
    (member : ⟨row, node, property⟩ ∈ reopened) (aside : ∀ next ∈ reopened, Aside row front property next)
    (unmarked : (front ++ [PlaceStep.property property]).head? ≠ some (.property newRowMark)) :
    (v.reconcile now reopened).Holds ⟨row, node, property, front ++ [PlaceStep.property property]⟩
      (.timestamp now) := by
  obtain ⟨r, standing, stands⟩ : IsDated now (reopened.foldl (reopen now) v.rows) row front property :=
    isDated_foldl has placed member aside
  refine ⟨r.settled, ?_, ViewRow.stands_settled stands unmarked (List.concat_ne_nil _ _)⟩
  rw [reconcile, List.getElem?_map, standing]
  rfl

theorem holds_reconcile_of_spared {slot : Slot} {value : Value} (holds : v.Holds slot value) (below : slot.place ≠ [])
    (unmarked : slot.place.head? ≠ some (.property newRowMark))
    (spared : ∀ next ∈ reopened, next.row = slot.row → ∀ changed, Path.place? next.node next.property = some changed →
      changed.Spares slot.place value) : (v.reconcile now reopened).Holds slot value := by
  have kept : ∃ r, (reopened.foldl (reopen now) v.rows)[slot.row]? = some r ∧
      (Value.row r.data).atPlace? slot.place = some value := by
    obtain ⟨r, standing, stands⟩ := holds
    generalize v.rows = rows at standing
    induction reopened generalizing rows r with
    | nil => exact ⟨r, standing, stands⟩
    | cons first rest ih =>
        obtain ⟨spared, later⟩ := List.forall_mem_cons.mp spared
        refine ih later _ ?_ _ (reopen_getElem? standing now first)
        split
        next same => exact Row.stands_alterNode_of_spared stands (spared same)
        next => exact stands
  obtain ⟨r, standing, stands⟩ := kept
  refine ⟨r.settled, ?_, ViewRow.stands_settled stands unmarked below⟩
  rw [reconcile, List.getElem?_map, standing]
  rfl

theorem length_reopened (now : Timestamp) (reopened : List Reopening) (rows : List ViewRow) :
    (reopened.foldl (reopen now) rows).length = rows.length := by
  induction reopened generalizing rows with
  | nil => rfl
  | cons first rest ih => exact (ih _).trans (List.length_modify ..)

/-- What a view comes to whose changes have been stored at a time. It is settled; what the plan reopens starts at
that time, and all else stands as before but for the marks of new rows. -/
structure IsReconciled (v after : View) (now : Timestamp) (reopened : List Reopening) : Prop where
  compiled : after.compiled = v.compiled
  length : after.rows.length = v.rows.length
  settled : v.IsOrdered → after.IsSettled
  dated : ∀ row node property front, HasNode v.rows row front → Path.nodePlace? node = some front →
    ⟨row, node, property⟩ ∈ reopened → (∀ next ∈ reopened, Aside row front property next) →
    (front ++ [PlaceStep.property property]).head? ≠ some (.property newRowMark) →
    after.Holds ⟨row, node, property, front ++ [PlaceStep.property property]⟩ (.timestamp now)
  kept : ∀ slot value, v.Holds slot value → slot.place ≠ [] → slot.place.head? ≠ some (.property newRowMark) →
    (∀ next ∈ reopened, next.row = slot.row → ∀ changed, Path.place? next.node next.property = some changed →
      changed.Spares slot.place value) → after.Holds slot value

theorem isReconciled (v : View) (now : Timestamp) (reopened : List Reopening) :
    v.IsReconciled (v.reconcile now reopened) now reopened where
  compiled := rfl
  length := (List.length_map _).trans (length_reopened ..)
  settled ordered := ordered.reconcile now reopened
  dated _ _ _ _ has placed member aside unmarked := holds_reconcile has placed member aside unmarked
  kept _ _ holds below unmarked spared := holds_reconcile_of_spared holds below unmarked spared

theorem Plans.mem_writes (plans : v.Plans strict context w origin) (written : v.writes strict context = .ok writes) :
    w ∈ writes := by
  cases origin with
  | node row node =>
      obtain ⟨r, ofNode, standing, stored, changed, planned, member⟩ := plans
      obtain ⟨again, found, each⟩ := plans_of_changed written standing stored changed
      cases planned.symm.trans found
      exact (each w member).1
  | added row =>
      obtain ⟨r, ofRow, standing, isNew, planned, member⟩ := plans
      obtain ⟨again, found, among⟩ := (writes_complete written).1 row r standing
      simp only [rowWrites, isNew, if_true] at found
      cases planned.symm.trans found
      exact among member
  | removed row =>
      obtain ⟨data, standing, planned⟩ := plans
      obtain ⟨again, inside, found⟩ := (writes_complete written).2 row data standing
      cases planned.symm.trans found
      exact inside

end View

def WriteOrigin.node? : WriteOrigin → Option (Nat × String)
  | .node number path => some (number, path)
  | .added number => some (number, "")
  | .removed _ => none

namespace View

variable {v : View} {strict : Bool} {context : Context} {settings : ViewSettings} {plan : WritePlan}
  {w : Write} {origin : WriteOrigin} {row : Nat} {node property : String}

/-- A row is inserted for a node of an entity with versions: it is the version of the node from then on. -/
def Opens (v : View) (strict : Bool) (context : Context) (row : Nat) (node : String) (version : VersionColumns) : Prop :=
  ∃ w origin e data, v.Plans strict context w origin ∧ origin.node? = some (row, node) ∧
    w.statement.kind = .insert ∧ v.HasSource e data origin ∧ e.version = some version

theorem Plans.reopens_iff (plans : v.Plans strict context w origin) :
    w.reopens = some ⟨row, node, property⟩ ↔ origin.node? = some (row, node) ∧ w.statement.kind = .insert ∧
      ∃ e data version, v.HasSource e data origin ∧ e.version = some version ∧
        version.opening.property = property := by
  cases origin with
  | node number path =>
      obtain ⟨r, writes, there, -, -, planned, member⟩ := plans
      cases nodeWrites_plans planned with
      | unresolved | absent | unchanged => contradiction
      | @stored e data _ _ _ entity standing _ _ stores =>
          cases stores with
          | update inPlace =>
              cases List.mem_singleton.mp member
              refine iff_of_false (by rintro ⟨⟩) fun ⟨_, inserts, _⟩ => ?_
              rw [updateWrite_statement] at inserts
              contradiction
          | @version version opening closing declared slow opens closes =>
              rcases member with _ | ⟨_, _ | ⟨_, ⟨⟩⟩⟩
              · refine iff_of_false (by rintro ⟨⟩) fun ⟨_, inserts, _⟩ => ?_
                exact absurd ((closing_kind closing context.writeTime).symm.trans inserts) (by decide)
              · constructor
                · intro same
                  cases same
                  refine ⟨rfl, ?_, e, data, version, ⟨r, there, standing, entity⟩, declared, rfl⟩
                  rw [successorWrite, successor_eq]
                  rfl
                · rintro ⟨same, -, other, fields, dated, ⟨r', there', -, entity'⟩, declared', rfl⟩
                  cases same
                  cases there.symm.trans there'
                  cases entity.symm.trans entity'
                  cases declared.symm.trans declared'
                  rfl
  | added number =>
      obtain ⟨r, writes, there, -, planned, member⟩ := plans
      cases insertWrites_plans planned with
      | nothing => contradiction
      | stored =>
          cases List.mem_singleton.mp member
          constructor
          · intro same
            obtain ⟨version, declared, same⟩ := Option.map_eq_some_iff.mp same
            cases same
            exact ⟨rfl, rfl, _, _, version, ⟨r, there, rfl, rfl⟩, declared, rfl⟩
          · rintro ⟨same, -, e, fields, version, ⟨r', there', rfl, rfl⟩, declared, rfl⟩
            cases same
            cases there.symm.trans there'
            exact Option.map_eq_some_iff.mpr ⟨version, declared, rfl⟩
  | removed number =>
      obtain ⟨data, -, planned⟩ := plans
      obtain ⟨keys, -, removes⟩ := removalWrite_removes planned
      refine iff_of_false (fun same => ?_) (by rintro ⟨⟨⟩, -⟩)
      cases removes <;> cases same

theorem mem_reopened_iff (planned : (v.plan settings context).2 = .ok plan) :
    ⟨row, node, property⟩ ∈ plan.reopened ↔ ∃ version, version.opening.property = property ∧
      (v.plan settings context).1.Opens settings.strictWriteBack context row node version := by
  obtain ⟨writes, written, rfl⟩ := plan_writes planned
  constructor
  · intro member
    obtain ⟨w, isWrite, reopens⟩ := List.mem_filterMap.mp member
    obtain ⟨origin, plans⟩ := writes_plans written isWrite
    obtain ⟨isNode, inserts, e, data, version, source, dated, opening⟩ := plans.reopens_iff.mp reopens
    exact ⟨version, opening, w, origin, e, data, plans, isNode, inserts, source, dated⟩
  · rintro ⟨version, opening, w, origin, e, data, plans, isNode, inserts, source, dated⟩
    exact List.mem_filterMap.mpr ⟨w, plans.mem_writes written,
      plans.reopens_iff.mpr ⟨isNode, inserts, e, data, version, source, dated, opening⟩⟩

end View

end ViewEngine
