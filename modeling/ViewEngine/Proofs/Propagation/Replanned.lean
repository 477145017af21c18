import ViewEngine.Proofs.Propagation.Planned

/-!
What planning again makes of a view. One pass takes keys over between the changed nodes and those above them. Where
that leaves all of them in agreement the second plan is the first one.
-/

namespace ViewEngine

theorem Place.overlaps_cons {s : PlaceStep} {place other : Place} :
    Overlaps (s :: place) (s :: other) ↔ place.Overlaps other := by
  simp only [Overlaps, List.cons_prefix_cons, true_and]

structure Spot where
  node : String
  property : String
deriving DecidableEq

namespace Spot

def place? (s : Spot) : Option Place :=
  Path.place? s.node s.property

def Apart (s other : Spot) : Prop :=
  ∀ place ∈ s.place?, ∀ changed ∈ other.place?, ¬ place.Overlaps changed

instance (s other : Spot) : Decidable (s.Apart other) :=
  inferInstanceAs (Decidable (∀ place ∈ s.place?, ∀ changed ∈ other.place?, ¬ place.Overlaps changed))

theorem Apart.symm {s other : Spot} (apart : s.Apart other) : other.Apart s :=
  fun place placed changed there overlaps => apart changed there place placed overlaps.symm

end Spot

namespace Row

open Value

variable {row data : Row} {steps others rest : List PathStep} {name property key : String} {value : Value}
  {position : Option Nat}

theorem follow_cons_congr {step : PathStep} {other : Row}
    (same : Keyed.get? row step.property = Keyed.get? other step.property) :
    row.follow (step :: rest) = other.follow (step :: rest) := by
  simp only [follow, same]

theorem follow_cons (found : row.follow (⟨key, position⟩ :: rest) = .ok (some data)) :
    ∃ fields : Row, fields.follow rest = .ok (some data) ∧
      ((position = none ∧ Keyed.get? row key = some (.row fields)) ∨
        ∃ items number, position = some number ∧ Keyed.get? row key = some (.list items) ∧
          items[number]? = some (.row fields)) := by
  simp only [follow] at found
  cases held : Keyed.get? row key with
  | none => cases position <;> simp [held] at found
  | some there =>
      rw [held, Option.getD_some] at found
      cases position with
      | none =>
          cases there with
          | row fields => exact ⟨fields, found, .inl ⟨rfl, rfl⟩⟩
          | _ => simp at found
      | some number =>
          cases there with
          | list items =>
              dsimp only at found
              split at found
              next item inside =>
                cases item with
                | row fields => exact ⟨fields, found, .inr ⟨items, number, rfl, rfl, inside⟩⟩
                | _ => simp at found
              next => contradiction
          | _ => simp at found

theorem follow_of_row_at {fields : Row} (held : Keyed.get? row key = some (.row fields)) :
    row.follow (⟨key, none⟩ :: rest) = fields.follow rest := by
  simp only [follow, held, Option.getD_some]

theorem follow_of_item_at {fields : Row} {items : List Value} {number : Nat}
    (held : Keyed.get? row key = some (.list items)) (inside : items[number]? = some (.row fields)) :
    row.follow (⟨key, some number⟩ :: rest) = fields.follow rest := by
  simp only [follow, held, Option.getD_some, inside]

theorem follow_alterAlong (found : row.follow steps = .ok (some data))
    (apart : ¬ (Path.placeOf steps name).Overlaps (Path.placeOf others property)) :
    ∃ after, (row.alterAlong (Keyed.insert property value ·) others).1.follow steps = .ok (some after) ∧
      Keyed.get? after name = Keyed.get? data name := by
  induction others generalizing row steps with
  | nil =>
      cases steps with
      | nil =>
          cases found
          refine ⟨_, rfl, Keyed.get?_insert_of_ne ?_ ..⟩
          rintro rfl
          exact apart (.inl (List.prefix_refl _))
      | cons step rest =>
          refine ⟨data, (follow_cons_congr (Keyed.get?_insert_of_ne ?_ ..)).trans found, rfl⟩
          intro same
          exact apart (.inr (by rw [Path.placeOf_cons, same]; exact ⟨_, rfl⟩))
  | cons other more ih =>
      obtain ⟨changed, at?⟩ := other
      rw [Path.placeOf_cons] at apart
      cases steps with
      | nil =>
          cases found
          unfold alterAlong
          refine ⟨_, rfl, Keyed.get?_insert_of_ne ?_ ..⟩
          rintro rfl
          exact apart (.inl ⟨_, rfl⟩)
      | cons step rest =>
          obtain ⟨key, position⟩ := step
          rw [Path.placeOf_cons] at apart
          by_cases same : key = changed
          · subst same
            obtain ⟨fields, inner, ⟨rfl, held⟩ | ⟨items, number, rfl, held, inside⟩⟩ := follow_cons found
            · unfold alterAlong
              simp only [held, Option.getD_some]
              cases at? with
              | none =>
                  obtain ⟨after, there, kept⟩ := ih inner fun overlap => apart (Place.overlaps_cons.mpr overlap)
                  exact ⟨after, (follow_of_row_at (Keyed.get?_insert_self ..)).trans there, kept⟩
              | some _ => exact ⟨data, (follow_of_row_at (Keyed.get?_insert_self ..)).trans inner, rfl⟩
            · unfold alterAlong
              simp only [held, Option.getD_some]
              cases at? with
              | none => exact ⟨data, (follow_of_item_at (Keyed.get?_insert_self ..) inside).trans inner, rfl⟩
              | some other =>
                  cases element : items[other]? with
                  | none =>
                      simp only [element]
                      exact ⟨data, (follow_of_item_at (Keyed.get?_insert_self ..) inside).trans inner, rfl⟩
                  | some item =>
                      by_cases same : other = number
                      · subst same
                        cases inside.symm.trans element
                        simp only [inside]
                        obtain ⟨bound, -⟩ := List.getElem?_eq_some_iff.mp inside
                        obtain ⟨after, there, kept⟩ := ih inner fun overlap =>
                          apart (Place.overlaps_cons.mpr (Place.overlaps_cons.mpr overlap))
                        exact ⟨after, (follow_of_item_at (Keyed.get?_insert_self ..)
                          (List.getElem?_set_self bound)).trans there, kept⟩
                      · simp only [element]
                        exact ⟨data, (follow_of_item_at (Keyed.get?_insert_self ..)
                          ((List.getElem?_set_ne same).trans inside)).trans inner, rfl⟩
          · unfold alterAlong
            exact ⟨data, (follow_cons_congr (Keyed.get?_insert_of_ne same ..)).trans found, rfl⟩

variable {node other : String}

theorem nodeAt_eq_some (found : row.nodeAt node = .ok (some data)) :
    ∃ steps, (∀ name, Path.place? node name = some (Path.placeOf steps name)) ∧ row.follow steps = .ok (some data) ∧
      ∀ after data : Row, after.follow steps = .ok (some data) → after.nodeAt node = .ok (some data) := by
  unfold nodeAt at found
  unfold Path.place? nodeAt
  split at found
  next root =>
    cases found
    simp only [root, if_true]
    exact ⟨[], fun _ => rfl, rfl, fun after data same => by cases same; rfl⟩
  next below =>
    simp only [below]
    cases parsed : Path.read node with
    | error fault => simp [parsed, Except.bind, Except.mapError] at found
    | ok steps =>
        rw [parsed] at found
        refine ⟨steps, fun _ => rfl, ?_, fun after data same => by simp [Except.bind, same, Except.mapError]⟩
        cases followed : row.follow steps with
        | error fault => simp [Except.bind, followed, Except.mapError] at found
        | ok there =>
            simp only [Except.bind, followed, Except.mapError, Except.ok.injEq] at found
            rw [found]

theorem nodeAt_alterNode (value : Value) (found : row.nodeAt node = .ok (some data))
    (apart : Spot.Apart ⟨node, name⟩ ⟨other, property⟩) :
    ∃ after, (row.alterNode other (Keyed.insert property value ·)).1.nodeAt node = .ok (some after) ∧
      Keyed.get? after name = Keyed.get? data name := by
  obtain ⟨steps, placed, followed, leads⟩ := nodeAt_eq_some found
  rcases alterNode_cases row other (Keyed.insert property value ·) with ⟨others, changed, same, -⟩ | ⟨same, -⟩
  · obtain ⟨after, there, kept⟩ := follow_alterAlong followed (apart _ (placed name) _ (changed property))
    exact ⟨after, leads _ _ (by rw [same]; exact there), kept⟩
  · exact ⟨data, by rw [same]; exact found, rfl⟩

end Row

namespace ViewRow

variable {r after : ViewRow} {s other : Spot} {held : Option Value} {value : Value}

def reads? (r : ViewRow) (s : Spot) : Option (Option Value) :=
  match r.data.nodeAt s.node with
  | .ok (some data) => some (Keyed.get? data s.property)
  | _ => none

theorem reads?_eq_some : r.reads? s = some held ↔
    ∃ data, r.data.nodeAt s.node = .ok (some data) ∧ Keyed.get? data s.property = held := by
  unfold reads?
  split
  next data found => simp [found]
  next missing =>
    refine iff_of_false nofun ?_
    rintro ⟨data, found, -⟩
    exact missing data found

theorem held_of_reads? (reads : r.reads? s = some held) : r.held s.node s.property = .ok held := by
  obtain ⟨data, found, rfl⟩ := reads?_eq_some.mp reads
  simp only [ViewRow.held, found, Except.map, Option.bind_some]

theorem reads?_assign (value : Value) (reads : r.reads? s = some held) (apart : s.Apart other) :
    (r.assign other.node other.property value).1.reads? s = some held := by
  obtain ⟨data, found, rfl⟩ := reads?_eq_some.mp reads
  obtain ⟨after, there, kept⟩ := Row.nodeAt_alterNode value found apart
  exact reads?_eq_some.mpr ⟨after, by rw [assign_data]; exact there, kept⟩

theorem changed_of_assign (assigned : r.assign s.node s.property value = (after, .ok ())) {path : String}
    (changed : path ∈ after.changed) : path = Path.child s.node s.property ∨ path ∈ r.changed := by
  unfold assign at assigned
  split at assigned
  · cases assigned
    exact Names.mem_insert.mp changed
  · cases assigned

theorem reads?_assign_self (assigned : (r.assign s.node s.property value).2 = .ok ()) :
    (r.assign s.node s.property value).1.reads? s = some (some value) := by
  obtain ⟨place, placed, stands⟩ := stands_assign assigned
  exact reads?_eq_some.mpr (Row.nodeAt_of_stands placed stands)

end ViewRow

section Steps

variable {α β σ ε : Type} {step : α → σ → σ × Except ε Unit} {state after : σ}

theorem runSteps_cons_eq_ok {item : α} {rest : List α} : runSteps step (item :: rest) state = (after, .ok ()) ↔
    ∃ middle, step item state = (middle, .ok ()) ∧ runSteps step rest middle = (after, .ok ()) := by
  rw [runSteps]
  rcases step item state with ⟨middle, fault | done⟩
  · simp
  · simp

theorem runSteps_append_eq_ok {items more : List α} : runSteps step (items ++ more) state = (after, .ok ()) ↔
    ∃ middle, runSteps step items state = (middle, .ok ()) ∧ runSteps step more middle = (after, .ok ()) := by
  induction items generalizing state with
  | nil => simp [runSteps]
  | cons item rest ih =>
      simp only [List.cons_append, runSteps_cons_eq_ok, ih]
      grind

theorem runSteps_flatMap_eq_ok {smaller : β → σ → σ × Except ε Unit} {parts : α → List β} {condition : α → Prop}
    (each : ∀ item state after, step item state = (after, .ok ()) ↔
      condition item ∧ runSteps smaller (parts item) state = (after, .ok ())) {items : List α} :
    runSteps step items state = (after, .ok ()) ↔
      (∀ item ∈ items, condition item) ∧ runSteps smaller (items.flatMap parts) state = (after, .ok ()) := by
  induction items generalizing state with
  | nil => simp [runSteps]
  | cons item rest ih =>
      simp only [runSteps_cons_eq_ok, List.flatMap_cons, runSteps_append_eq_ok, List.forall_mem_cons, each, ih]
      grind

end Steps

/-- A join column of a node and one of the node above it, of which one takes over what the other one gives. -/
structure KeyLink where
  lower : Spot
  upper : Spot
  /-- Whether the node above takes over. -/
  isUp : Bool
deriving DecidableEq

namespace KeyLink

def giver (l : KeyLink) : Spot :=
  if l.isUp then l.lower else l.upper

def taker (l : KeyLink) : Spot :=
  if l.isUp then l.upper else l.lower

def given (l : KeyLink) (below above : Option Value) : Option Value :=
  if l.isUp then below else above

/-- The giver holds nothing, or what the taker holds. -/
def Agrees (l : KeyLink) (r : ViewRow) : Prop :=
  ∃ below ∈ r.reads? l.lower, ∃ above ∈ r.reads? l.upper,
    l.given below above = none ∨ Value.equalSlots below above = true

instance (l : KeyLink) (r : ViewRow) : Decidable (l.Agrees r) :=
  inferInstanceAs (Decidable (∃ below ∈ r.reads? l.lower, ∃ above ∈ r.reads? l.upper, _ ∨ _))

def exchange (l : KeyLink) (r : ViewRow) : ViewRow × Except ViewError Unit :=
  match r.held l.lower.node l.lower.property, r.held l.upper.node l.upper.property with
  | .error e, _ | .ok _, .error e => (r, .error e)
  | .ok below, .ok above =>
    if Value.equalSlots below above then (r, .ok ())
    else
      match l.given below above with
      | some value => r.assign l.taker.node l.taker.property value
      | none => (r, .ok ())

end KeyLink

namespace JoinEntry

def Resolves (entry : JoinEntry) (pair : JoinColumn) : Prop :=
  (entry.sourceEntity.column? pair.source).isSome = true ∧ (entry.entity.column? pair.target).isSome = true

def link? (entry : JoinEntry) (node : String) (pair : JoinColumn) : Option KeyLink :=
  match entry.sourceEntity.column? pair.source, entry.entity.column? pair.target with
  | some upper, some lower =>
    if upper.primaryKey && lower.primaryKey then none
    else some ⟨⟨node, lower.property⟩, ⟨Path.node node, upper.property⟩, !upper.primaryKey⟩
  | _, _ => none

end JoinEntry

namespace JoinPlan

def Resolves (plan : JoinPlan) (node : String) : Prop :=
  ∃ entry ∈ plan.atPath? (Path.withoutPositions node), ∀ pair ∈ entry.subject.joinColumns, entry.Resolves pair

instance (plan : JoinPlan) (node : String) : Decidable (plan.Resolves node) :=
  inferInstanceAs (Decidable (∃ entry ∈ plan.atPath? (Path.withoutPositions node),
    ∀ pair ∈ entry.subject.joinColumns,
      (entry.sourceEntity.column? pair.source).isSome = true ∧ (entry.entity.column? pair.target).isSome = true))

def links (plan : JoinPlan) (node : String) : List KeyLink :=
  (plan.atPath? (Path.withoutPositions node)).toList.flatMap fun entry =>
    entry.subject.joinColumns.filterMap (entry.link? node)

end JoinPlan

namespace ViewRow

variable {r after : ViewRow} {strict : Bool} {plan : JoinPlan}

def links (plan : JoinPlan) (r : ViewRow) : List KeyLink :=
  r.changedNodes.flatMap plan.links

theorem propagatePair_eq_ok {entry : JoinEntry} {path node : String} {pair : JoinColumn} :
    propagatePair strict entry path node pair r = (after, .ok ()) ↔
      (strict = true → entry.Resolves pair) ∧
        runSteps KeyLink.exchange (entry.link? node pair).toList r = (after, .ok ()) := by
  unfold propagatePair JoinEntry.link? JoinEntry.Resolves reportUnresolved
  split
  next => cases strict <;> simp [*, runSteps]
  next => cases strict <;> simp [*, runSteps]
  next upper lower foundUpper foundLower =>
    simp only [foundUpper, foundLower, Option.isSome_some, and_self, implies_true, true_and]
    split
    · rfl
    · cases upper.primaryKey <;>
        simp only [Option.toList_some, runSteps, KeyLink.exchange, KeyLink.given, KeyLink.taker] <;>
        grind

theorem propagateNode_eq_ok {node : String} : propagateNode strict plan node r = (after, .ok ()) ↔
    (strict = true → plan.Resolves node) ∧ runSteps KeyLink.exchange (plan.links node) r = (after, .ok ()) := by
  unfold propagateNode JoinPlan.Resolves JoinPlan.links
  dsimp only
  cases plan.atPath? (Path.withoutPositions node) with
  | none => cases strict <;> simp [reportUnresolved, runSteps]
  | some entry =>
      have pairs := @runSteps_flatMap_eq_ok JoinColumn KeyLink ViewRow ViewError
        (propagatePair strict entry (Path.withoutPositions node) node) r after KeyLink.exchange
        (fun pair => (entry.link? node pair).toList) (fun pair => strict = true → entry.Resolves pair)
        (fun _ _ _ => propagatePair_eq_ok) entry.subject.joinColumns
      rw [← List.filterMap_eq_flatMap_toList] at pairs
      simp only [pairs, Option.mem_some_iff, exists_eq_left', Option.toList_some, List.flatMap_singleton]
      grind

theorem propagate_eq_ok : r.propagate strict plan = (after, .ok ()) ↔
    (∀ node ∈ r.changedNodes, strict = true → plan.Resolves node) ∧
      runSteps KeyLink.exchange (r.links plan) r = (after, .ok ()) :=
  @runSteps_flatMap_eq_ok String KeyLink ViewRow ViewError (propagateNode strict plan) r after KeyLink.exchange
    plan.links (fun node => strict = true → plan.Resolves node) (fun _ _ _ => propagateNode_eq_ok) r.changedNodes

end ViewRow

namespace KeyLink

open ViewRow

variable {r after : ViewRow} {l : KeyLink} {links : List KeyLink} {s : Spot} {held below above : Option Value}

theorem of_giver_of_taker (holds : Spot → Prop) (giver : holds l.giver) (taker : holds l.taker) :
    holds l.lower ∧ holds l.upper := by
  unfold KeyLink.giver at giver
  unfold KeyLink.taker at taker
  cases up : l.isUp
  · rw [up] at giver taker
    exact ⟨taker, giver⟩
  · rw [up] at giver taker
    exact ⟨giver, taker⟩

theorem exchange_cases (exchanged : l.exchange r = (after, .ok ())) : ∃ below above,
    r.held l.lower.node l.lower.property = .ok below ∧ r.held l.upper.node l.upper.property = .ok above ∧
      ((after = r ∧ (l.given below above = none ∨ Value.equalSlots below above = true)) ∨
        ∃ value, l.given below above = some value ∧
          r.assign l.taker.node l.taker.property value = (after, .ok ())) := by
  unfold exchange at exchanged
  split at exchanged
  · cases exchanged
  · cases exchanged
  next below above lower upper =>
    refine ⟨below, above, lower, upper, ?_⟩
    split at exchanged
    next equal =>
      cases exchanged
      exact .inl ⟨rfl, .inr equal⟩
    next =>
      split at exchanged
      next value given => exact .inr ⟨value, given, exchanged⟩
      next nothing =>
        cases exchanged
        exact .inl ⟨rfl, .inl nothing⟩

theorem reads?_exchange (exchanged : l.exchange r = (after, .ok ())) (reads : r.reads? s = some held)
    (apart : s.Apart l.taker) : after.reads? s = some held := by
  obtain ⟨below, above, -, -, ⟨rfl, -⟩ | ⟨value, -, assigned⟩⟩ := exchange_cases exchanged
  · exact reads
  · have kept := reads?_assign value reads apart
    rwa [assigned] at kept

theorem reads?_exchanges (exchanged : runSteps exchange links r = (after, .ok ())) (reads : r.reads? s = some held)
    (apart : ∀ l ∈ links, s.Apart l.taker) : after.reads? s = some held := by
  induction links generalizing r with
  | nil =>
      cases exchanged
      exact reads
  | cons l rest ih =>
      obtain ⟨first, later⟩ := List.forall_mem_cons.mp apart
      obtain ⟨middle, step, steps⟩ := runSteps_cons_eq_ok.mp exchanged
      exact ih steps (reads?_exchange step reads first) later

theorem Agrees.exchanges (agrees : l.Agrees r) (exchanged : runSteps exchange links r = (after, .ok ()))
    (apart : ∀ m ∈ links, l.giver.Apart m.taker ∧ l.taker.Apart m.taker) : l.Agrees after := by
  obtain ⟨below, lower, above, upper, equal⟩ := agrees
  obtain ⟨first, second⟩ := of_giver_of_taker (fun s => ∀ m ∈ links, s.Apart m.taker)
    (fun m member => (apart m member).1) (fun m member => (apart m member).2)
  exact ⟨below, reads?_exchanges exchanged lower first, above, reads?_exchanges exchanged upper second, equal⟩

theorem Agrees.exchange_eq (agrees : l.Agrees r) : l.exchange r = (r, .ok ()) := by
  obtain ⟨below, lower, above, upper, equal⟩ := agrees
  unfold exchange
  simp only [held_of_reads? lower, held_of_reads? upper]
  split
  · rfl
  next different =>
    rw [equal.resolve_right different]

theorem exchanges_eq (agree : ∀ l ∈ links, l.Agrees r) : runSteps exchange links r = (r, .ok ()) := by
  induction links with
  | nil => rfl
  | cons l rest ih =>
      obtain ⟨first, later⟩ := List.forall_mem_cons.mp agree
      exact runSteps_cons_eq_ok.mpr ⟨r, first.exchange_eq, ih later⟩

theorem agrees_exchange (exchanged : l.exchange r = (after, .ok ())) (lower : r.reads? l.lower = some below)
    (upper : r.reads? l.upper = some above) (apart : l.giver.Apart l.taker)
    (equal : ∀ value ∈ l.given below above, value.equal value = true) : l.Agrees after := by
  obtain ⟨below', above', heldLower, heldUpper, outcome⟩ := exchange_cases exchanged
  cases (held_of_reads? lower).symm.trans heldLower
  cases (held_of_reads? upper).symm.trans heldUpper
  rcases outcome with ⟨rfl, agrees⟩ | ⟨value, given, assigned⟩
  · exact ⟨below, lower, above, upper, agrees⟩
  · have taken := reads?_assign_self (congrArg Prod.snd assigned)
    rw [assigned] at taken
    have gives {s : Spot} {held : Option Value} (reads : r.reads? s = some held) (isGiver : s = l.giver) :
        after.reads? s = some held :=
      reads?_exchange exchanged reads (isGiver ▸ apart)
    have same := equal value given
    unfold KeyLink.given at given
    unfold KeyLink.taker at taken
    unfold KeyLink.giver at gives
    cases up : l.isUp
    · rw [up] at given taken gives
      cases given
      exact ⟨some value, taken, some value, gives upper rfl, .inr same⟩
    · rw [up] at given taken gives
      cases given
      exact ⟨some value, gives lower rfl, some value, taken, .inr same⟩

theorem mem_changed_of_exchanges (exchanged : runSteps exchange links r = (after, .ok ())) {path : String}
    (changed : path ∈ after.changed) :
    path ∈ r.changed ∨ ∃ l ∈ links, path = Path.child l.taker.node l.taker.property := by
  induction links generalizing r with
  | nil =>
      cases exchanged
      exact .inl changed
  | cons l rest ih =>
      obtain ⟨middle, step, steps⟩ := runSteps_cons_eq_ok.mp exchanged
      rcases ih steps with before | ⟨m, member, same⟩
      · obtain ⟨-, -, -, -, ⟨rfl, -⟩ | ⟨value, -, assigned⟩⟩ := exchange_cases step
        · exact .inl before
        · rcases changed_of_assign assigned before with same | earlier
          · exact .inr ⟨l, List.mem_cons_self .., same⟩
          · exact .inl earlier
      · exact .inr ⟨m, List.mem_cons_of_mem _ member, same⟩

end KeyLink

namespace ViewRow

open KeyLink

variable {r after : ViewRow} {strict : Bool} {plan : JoinPlan} {links : List KeyLink} {node : String}

structure Separates (r : ViewRow) (links : List KeyLink) : Prop where
  there : ∀ l ∈ links, (r.reads? l.lower).isSome = true ∧ (r.reads? l.upper).isSome = true
  takers : links.Pairwise fun l m => l.taker.Apart m.taker
  givers : ∀ l ∈ links, ∀ m ∈ links, l.giver.Apart m.taker
  /-- No number that is given is unequal to itself. -/
  equal : ∀ l ∈ links, ∀ given ∈ r.reads? l.giver, ∀ value ∈ given, value.equal value = true

instance (r : ViewRow) (links : List KeyLink) : Decidable (r.Separates links) :=
  decidable_of_iff
    ((∀ l ∈ links, (r.reads? l.lower).isSome = true ∧ (r.reads? l.upper).isSome = true) ∧
      links.Pairwise (fun l m => l.taker.Apart m.taker) ∧ (∀ l ∈ links, ∀ m ∈ links, l.giver.Apart m.taker) ∧
      ∀ l ∈ links, ∀ given ∈ r.reads? l.giver, ∀ value ∈ given, value.equal value = true)
    ⟨fun ⟨there, takers, givers, equal⟩ => ⟨there, takers, givers, equal⟩,
      fun separates => ⟨separates.there, separates.takers, separates.givers, separates.equal⟩⟩

theorem Separates.agree (separates : r.Separates links) (exchanged : runSteps exchange links r = (after, .ok ())) :
    ∀ l ∈ links, l.Agrees after := by
  induction links generalizing r with
  | nil => simp
  | cons l rest ih =>
      obtain ⟨middle, step, steps⟩ := runSteps_cons_eq_ok.mp exchanged
      obtain ⟨takers, others⟩ := List.pairwise_cons.mp separates.takers
      obtain ⟨⟨isLower, isUpper⟩, there⟩ := List.forall_mem_cons.mp separates.there
      obtain ⟨below, lower⟩ := Option.isSome_iff_exists.mp isLower
      obtain ⟨above, upper⟩ := Option.isSome_iff_exists.mp isUpper
      have gives := separates.givers l (List.mem_cons_self ..)
      have first : l.Agrees middle := by
        refine agrees_exchange step lower upper (gives l (List.mem_cons_self ..)) fun value given => ?_
        refine separates.equal l (List.mem_cons_self ..) (l.given below above) ?_ value given
        unfold KeyLink.giver KeyLink.given
        split
        · exact lower
        · exact upper
      refine List.forall_mem_cons.mpr ⟨first.exchanges steps fun m member =>
        ⟨gives m (List.mem_cons_of_mem _ member), takers m member⟩, ih ?_ steps⟩
      -- The other links find what they read as it was.
      have kept : ∀ m ∈ rest, middle.reads? m.lower = r.reads? m.lower ∧ middle.reads? m.upper = r.reads? m.upper := by
        intro m member
        obtain ⟨isLower, isUpper⟩ := there m member
        obtain ⟨below, lower⟩ := Option.isSome_iff_exists.mp isLower
        obtain ⟨above, upper⟩ := Option.isSome_iff_exists.mp isUpper
        obtain ⟨apartLower, apartUpper⟩ := of_giver_of_taker (·.Apart l.taker)
          (separates.givers m (List.mem_cons_of_mem _ member) l (List.mem_cons_self ..)) (takers m member).symm
        exact ⟨(reads?_exchange step lower apartLower).trans lower.symm,
          (reads?_exchange step upper apartUpper).trans upper.symm⟩
      refine ⟨fun m member => ?_, others, fun m member other later =>
        separates.givers m (List.mem_cons_of_mem _ member) other (List.mem_cons_of_mem _ later), fun m member => ?_⟩
      · rw [(kept m member).1, (kept m member).2]
        exact there m member
      · have same : middle.reads? m.giver = r.reads? m.giver := by
          unfold KeyLink.giver
          split
          · exact (kept m member).1
          · exact (kept m member).2
        rw [same]
        exact separates.equal m (List.mem_cons_of_mem _ member)

def takingNodes (plan : JoinPlan) (r : ViewRow) : List String :=
  ((r.links plan).map fun l => Path.node (Path.child l.taker.node l.taker.property)).filter (!·.isEmpty)

/-- Nothing that changed nodes and those above them take over is given on, or is taken over twice. Nodes that are not
changed, but may take something over, agree with those above them. -/
structure IsUnchained (strict : Bool) (plan : JoinPlan) (r : ViewRow) : Prop where
  separates : r.Separates (r.links plan)
  resolves : ∀ node ∈ r.takingNodes plan, node ∉ r.changedNodes → strict = true → plan.Resolves node
  agree : ∀ node ∈ r.takingNodes plan, node ∉ r.changedNodes → ∀ m ∈ plan.links node,
    m.Agrees r ∧ ∀ l ∈ r.links plan, m.giver.Apart l.taker ∧ m.taker.Apart l.taker

instance (strict : Bool) (plan : JoinPlan) (r : ViewRow) : Decidable (r.IsUnchained strict plan) :=
  decidable_of_iff
    (r.Separates (r.links plan) ∧
      (∀ node ∈ r.takingNodes plan, node ∉ r.changedNodes → strict = true → plan.Resolves node) ∧
      ∀ node ∈ r.takingNodes plan, node ∉ r.changedNodes → ∀ m ∈ plan.links node,
        m.Agrees r ∧ ∀ l ∈ r.links plan, m.giver.Apart l.taker ∧ m.taker.Apart l.taker)
    ⟨fun ⟨separates, resolves, agree⟩ => ⟨separates, resolves, agree⟩,
      fun unchained => ⟨unchained.separates, unchained.resolves, unchained.agree⟩⟩

theorem mem_changedNodes_of_exchanges (exchanged : runSteps KeyLink.exchange (r.links plan) r = (after, .ok ()))
    (changed : node ∈ after.changedNodes) : node ∈ r.changedNodes ∨ node ∈ r.takingNodes plan := by
  obtain ⟨⟨path, member, rfl⟩, below⟩ := mem_changedNodes.mp changed
  rcases mem_changed_of_exchanges exchanged member with before | ⟨l, isLink, rfl⟩
  · exact .inl (mem_changedNodes.mpr ⟨⟨path, before, rfl⟩, below⟩)
  · exact .inr (List.mem_filter.mpr ⟨List.mem_map_of_mem isLink, by simp [below]⟩)

/-- Changed nodes agree with those above them once keys have been taken over, which then changes nothing any more. -/
theorem IsUnchained.propagate (unchained : r.IsUnchained strict plan)
    (taken : r.propagate strict plan = (after, .ok ())) :
    (∀ node ∈ after.changedNodes, ∀ l ∈ plan.links node, l.Agrees after) ∧
      after.propagate strict plan = (after, .ok ()) := by
  obtain ⟨resolves, exchanged⟩ := propagate_eq_ok.mp taken
  have each : ∀ node ∈ after.changedNodes, (strict = true → plan.Resolves node) ∧
      ∀ l ∈ plan.links node, l.Agrees after := by
    intro node changed
    by_cases before : node ∈ r.changedNodes
    · exact ⟨resolves node before, fun l isLink =>
        unchained.separates.agree exchanged l (List.mem_flatMap.mpr ⟨node, before, isLink⟩)⟩
    · have takes := (mem_changedNodes_of_exchanges exchanged changed).resolve_left before
      refine ⟨unchained.resolves node takes before, fun m isLink => ?_⟩
      obtain ⟨agrees, kept⟩ := unchained.agree node takes before m isLink
      exact agrees.exchanges exchanged kept
  refine ⟨fun node changed => (each node changed).2,
    propagate_eq_ok.mpr ⟨fun node changed => (each node changed).1, ?_⟩⟩
  refine exchanges_eq fun l isLink => ?_
  obtain ⟨node, changed, isLink⟩ := List.mem_flatMap.mp isLink
  exact (each node changed).2 l isLink

theorem propagateAll_cons_eq_ok {rows done : List ViewRow} :
    propagateAll strict plan (r :: rows) = (done, .ok ()) ↔
      ∃ after rest, (if r.isNew then (r, .ok ()) else r.propagate strict plan) = (after, .ok ()) ∧
        propagateAll strict plan rows = (rest, .ok ()) ∧ after :: rest = done := by
  rw [propagateAll]
  dsimp only
  generalize (if r.isNew then (r, .ok ()) else r.propagate strict plan) = first
  generalize propagateAll strict plan rows = others
  obtain ⟨after, fault | _⟩ := first
  · simp
  · obtain ⟨rest, fault | _⟩ := others
    · simp
    · simp

/-- Changed nodes of all rows agree with those above them once keys have been taken over, which then changes nothing. -/
theorem propagateAll_again {rows done : List ViewRow} (taken : propagateAll strict plan rows = (done, .ok ()))
    (unchained : ∀ r ∈ rows, r.isNew = false → r.IsUnchained strict plan) :
    (∀ r ∈ done, r.isNew = false → ∀ node ∈ r.changedNodes, ∀ l ∈ plan.links node, l.Agrees r) ∧
      propagateAll strict plan done = (done, .ok ()) := by
  induction rows generalizing done with
  | nil =>
      cases taken
      exact ⟨by simp, rfl⟩
  | cons r rows ih =>
      obtain ⟨after, rest, first, later, rfl⟩ := propagateAll_cons_eq_ok.mp taken
      obtain ⟨isUnchained, others⟩ := List.forall_mem_cons.mp unchained
      obtain ⟨agree, again⟩ := ih later others
      rw [List.forall_mem_cons, propagateAll_cons_eq_ok]
      cases isNew : r.isNew with
      | true =>
          rw [isNew, if_pos rfl] at first
          cases first
          exact ⟨⟨fun stored => by simp [isNew] at stored, agree⟩, r, rest, by rw [isNew, if_pos rfl], again, rfl⟩
      | false =>
          rw [isNew, if_neg Bool.false_ne_true] at first
          obtain ⟨agrees, same⟩ := (isUnchained isNew).propagate first
          refine ⟨⟨fun _ => agrees, agree⟩, after, rest, ?_, again, rfl⟩
          split
          · rfl
          · exact same

end ViewRow

/-- Planning is idempotent where keys are not given on along a chain of nodes: planning again changes nothing and yields
the same plan, as all changed nodes agree with those above them. -/
theorem replanned {v : View} {settings : ViewSettings} {context : Context} {plan : WritePlan}
    (planned : (v.plan settings context).2 = .ok plan)
    (unchained : ∀ r ∈ v.rows, r.isNew = false → r.IsUnchained settings.strictWriteBack v.compiled.joinPlan) :
    ∃ w, v.plan settings context = (w, .ok plan) ∧ w.plan settings context = (w, .ok plan) ∧
      ∀ r ∈ w.rows, r.isNew = false → ∀ node ∈ r.changedNodes, ∀ l ∈ v.compiled.joinPlan.links node, l.Agrees r := by
  unfold View.plan at planned
  rcases taken : ViewRow.propagateAll settings.strictWriteBack v.compiled.joinPlan v.rows with ⟨rows, fault | _⟩
  · simp [taken] at planned
  · simp only [taken] at planned
    obtain ⟨agree, again⟩ := ViewRow.propagateAll_again taken unchained
    refine ⟨{ v with rows := rows }, ?_, ?_, agree⟩
    · simp only [View.plan, taken, planned]
    · simp only [View.plan, again, planned]

namespace Sample

open Outline (column association entity)

def deliveries : Outline where
  definitions := [
    entity "Order" "orders" [column "id" "id" .bigInt true, column "customerId" "customer_id" .bigInt false,
      association "customer" "Customer" "customer" "customer_id" "id" false],
    entity "Customer" "customer" [column "id" "id" .bigInt true, column "cityId" "city_id" .bigInt false,
      association "city" "City" "city" "city_id" "id" false],
    entity "City" "city" [column "id" "id" .bigInt true, column "name" "name" .varchar false]]
  roots := ["Order"]
  requests := [⟨"customer.city", none⟩]

def moving (compiled : CompiledView) : View :=
  (View.ofRows compiled [[("customer", .row [("city", .row [("id", .int 3), ("name", .text "a")]), ("cityId", .int 3),
    ("id", .int 2)]), ("customerId", .int 2), ("id", .int 1), ("rootKey", .int 1)]]).edited
      [⟨.int 7, 0, "customer.city.id"⟩]

set_option maxRecDepth 100000 in
/-- The customer gets the new city with the first plan, and the second plan finds nothing else to change. -/
theorem move_is_replanned : ∃ compiled w plan, deliveries.view? = some compiled ∧
    (moving compiled).plan {} context = (w, .ok plan) ∧ w.value 0 "customer.cityId" = .ok (.int 7) ∧
    w.plan {} context = (w, .ok plan) := by
  have checked : (deliveries.view?.map fun compiled =>
      ((moving compiled).plan {} context).2.isOk &&
      (((moving compiled).plan {} context).1.value 0 "customer.cityId").toOption == some (.int 7) &&
      decide (∀ r ∈ (moving compiled).rows, r.IsUnchained ({} : ViewSettings).strictWriteBack
        (moving compiled).compiled.joinPlan)) = some true := by
    decide +kernel
  obtain ⟨compiled, found, checked⟩ := Option.map_eq_some_iff.mp checked
  simp only [Bool.and_eq_true, decide_eq_true_eq] at checked
  obtain ⟨⟨planned, taken⟩, unchained⟩ := checked
  obtain ⟨plan, planned⟩ := exists_eq_ok_of_isOk planned
  obtain ⟨w, first, again, -⟩ := @replanned (moving compiled) {} context plan planned
    fun r member _ => unchained r member
  refine ⟨compiled, w, plan, found, first, ?_, again⟩
  rw [first] at taken
  exact eq_ok_of_toOption (beq_iff_eq.mp taken)

end Sample

end ViewEngine
