import Mathlib.Data.List.TakeWhile
import ViewEngine.Proofs.Except
import ViewEngine.Proofs.Propagation.Places
import ViewEngine.Proofs.Text.Joined
import ViewEngine.View.Rows

namespace ViewEngine

open Value

namespace Path

def place? (node property : String) : Option Place :=
  if node.isEmpty then some [.property property]
  else (read node).toOption.map (placeOf · property)

variable {path : String}

theorem property_ne_empty {c : Char} (last : path.toList.getLast? = some c) (notDot : c ≠ '.') :
    property path ≠ "" := by
  have nonempty : path ≠ "" := by
    rintro rfl
    contradiction
  rw [← List.head?_reverse] at last
  unfold property splitProperty Text.splitLast?
  simp only
  cases reversed : path.toList.reverse with
  | nil => simp [reversed] at last
  | cons first rest =>
      rw [reversed] at last
      cases last
      split
      · simpa using nonempty
      · rw [Option.getD_some, List.takeWhile_cons, if_pos (by simpa using notDot)]
        simp [← String.toList_inj]

end Path

namespace PathStep

theorem getLast?_text {text : String} {step : PathStep} (parsed : read text = .ok step)
    (whole : '.' ∉ text.toList) : ∃ c, step.text.toList.getLast? = some c ∧ c ≠ '.' := by
  unfold read at parsed
  simp only at parsed
  split at parsed
  next plain =>
    split at parsed
    · contradiction
    next present =>
      cases parsed
      have nonempty : text.toList ≠ [] := by
        intro empty
        simp [empty] at present
      obtain ⟨c, last⟩ := Option.isSome_iff_exists.mp (List.getLast?_isSome.mpr nonempty)
      refine ⟨c, last, ?_⟩
      rintro rfl
      exact whole (List.mem_of_getLast? last)
  next =>
    split at parsed
    · contradiction
    · split at parsed
      · contradiction
      · cases parsed
        refine ⟨']', ?_, by decide⟩
        simp only [PathStep.text, String.toList_append]
        exact List.getLast?_concat

/-- A text without brackets is a step through an association to one row. -/
theorem read_of_plain {text : String} (nonempty : text ≠ "") (plain : text.toList.contains '[' = false) :
    read text = .ok ⟨text, none⟩ := by
  have all : ∀ c ∈ text.toList, (c != '[') = true := by
    intro c member
    rw [bne_iff_ne]
    rintro rfl
    rw [List.contains_iff_mem.mpr member] at plain
    contradiction
  have cut : text.toList.dropWhile (· != '[') = [] := List.dropWhile_eq_nil_iff.mpr all
  have kept : text.toList.takeWhile (· != '[') = text.toList := List.takeWhile_eq_self_iff.mpr all
  have present : text.toList.isEmpty = false := by simpa using nonempty
  simp only [read, cut, kept, present, Bool.false_eq_true, if_false]

end PathStep

namespace Path

variable {path : String} {steps : List PathStep}

theorem read_eq_ok (parsed : read path = .ok steps) : (Text.split '.' path).mapM PathStep.read = .ok steps := by
  unfold read at parsed
  split at parsed
  · contradiction
  · exact parsed

theorem property_ne_empty_of_read (parsed : read path = .ok steps) : property path ≠ "" := by
  have parsed := read_eq_ok parsed
  obtain ⟨init, last, parts⟩ := List.eq_nil_or_concat' (Text.split '.' path) |>.resolve_left
    (Text.split_ne_nil '.' path)
  have member : last ∈ Text.split '.' path := by simp [parts]
  obtain ⟨step, -, readable⟩ := exists_ok_of_mapM parsed member
  have nonempty : last.toList ≠ [] := by
    intro empty
    simp [PathStep.read, empty] at readable
  obtain ⟨c, ends⟩ := Option.isSome_iff_exists.mp (List.getLast?_isSome.mpr nonempty)
  refine property_ne_empty (c := c) ?_ ?_
  · rw [← Text.intercalate_split '.' path, parts, String.toList_intercalate, List.map_append,
      List.map_singleton, Text.getLast?_intercalate nonempty, ends]
  · rintro rfl
    exact Text.not_mem_of_mem_split member (List.mem_of_getLast? ends)

theorem modify_concat {α : Type} {init : List α} {last : α} {place : Nat} {change : α → α}
    (early : place < init.length) :
    (init ++ [last]).modify place change = init.modify place change ++ [last] := by
  induction init generalizing place with
  | nil => contradiction
  | cons first rest ih =>
      cases place with
      | zero => rfl
      | succ place =>
          rw [List.cons_append, List.modify_succ_cons, ih (Nat.lt_of_succ_lt_succ early),
            List.modify_succ_cons, List.cons_append]

theorem property_ne_empty_of_modify (parsed : read path = .ok steps) {place : Nat}
    (early : place + 1 < steps.length) (change : PathStep → PathStep) :
    property (text (steps.modify place change)) ≠ "" := by
  have parsed := read_eq_ok parsed
  obtain ⟨init, last, rfl⟩ := (List.eq_nil_or_concat' steps).resolve_left (by rintro rfl; simp at early)
  have isResult : last ∈ init ++ [last] := by simp
  obtain ⟨part, member, readable⟩ := exists_of_mem_mapM parsed isResult
  obtain ⟨c, ends, notDot⟩ := PathStep.getLast?_text readable (Text.not_mem_of_mem_split member)
  refine property_ne_empty ?_ notDot
  have nonempty : last.text.toList ≠ [] := by
    intro empty
    rw [empty] at ends
    contradiction
  rw [text, modify_concat (by simpa using early), List.map_append, List.map_singleton,
    String.toList_intercalate, List.map_append, List.map_singleton, Text.getLast?_intercalate nonempty, ends]

end Path

namespace Row

variable {row : Row} {node property : String} {value other : Value} {place : Place}

/-- What stands at the place of a node and a property is found there. -/
theorem nodeAt_of_stands (placed : Path.place? node property = some place)
    (stands : (Value.row row).atPlace? place = some value) :
    ∃ data, row.nodeAt node = .ok (some data) ∧ Keyed.get? data property = some value := by
  unfold Path.place? at placed
  unfold nodeAt
  split at placed
  next root =>
    cases placed
    rw [if_pos root]
    obtain ⟨data, found, held⟩ := @follow_of_atPlace? row [] _ _ stands
    cases found
    exact ⟨row, rfl, held⟩
  next below =>
    rw [if_neg below]
    obtain ⟨steps, parsed, rfl⟩ := Option.map_eq_some_iff.mp placed
    cases readable : Path.read node with
    | error fault => simp [readable, Except.toOption] at parsed
    | ok others =>
        rw [readable] at parsed
        cases parsed
        obtain ⟨data, found, held⟩ := follow_of_atPlace? stands
        exact ⟨data, by simp [Except.bind, found, Except.mapError], held⟩

/-- A node is altered at the end of the steps that its path is read as, or not at all. -/
theorem alterNode_cases (row : Row) (node : String) (change : Row → Row) :
    (∃ steps, (∀ property, Path.place? node property = some (Path.placeOf steps property)) ∧
      (row.alterNode node change).1 = (row.alterAlong change steps).1 ∧
      ((row.alterNode node change).2 = .ok () → (row.alterAlong change steps).2 = .ok ())) ∨
    (row.alterNode node change).1 = row ∧ (row.alterNode node change).2 ≠ .ok () := by
  unfold alterNode Path.place?
  split
  next root => exact .inl ⟨[], fun _ => rfl, rfl, fun _ => rfl⟩
  next below =>
    cases readable : Path.read node with
    | error fault => exact .inr ⟨rfl, by rintro ⟨⟩⟩
    | ok steps => exact .inl ⟨steps, fun _ => rfl, rfl, mapError_eq_ok.mp⟩

theorem stands_alterNode (altered : (row.alterNode node (Keyed.insert property value ·)).2 = .ok ()) :
    ∃ place, Path.place? node property = some place ∧
      (Value.row (row.alterNode node (Keyed.insert property value ·)).1).atPlace? place = some value := by
  rcases alterNode_cases row node (Keyed.insert property value ·) with ⟨steps, placed, same, done⟩ | ⟨-, failed⟩
  · exact ⟨_, placed property, same ▸ atPlace?_alterAlong (done altered)⟩
  · exact absurd altered failed

theorem stands_alterNode_of_spared (stands : (Value.row row).atPlace? place = some other)
    (spared : ∀ changed, Path.place? node property = some changed → changed.Spares place other) :
    (Value.row (row.alterNode node (Keyed.insert property value ·)).1).atPlace? place = some other := by
  rcases alterNode_cases row node (Keyed.insert property value ·) with ⟨steps, placed, same, -⟩ | ⟨same, -⟩
  · rw [same]
    exact atPlace?_alterAlong_of_spared stands (spared _ (placed property))
  · rwa [same]

end Row

namespace ViewRow

variable {r : ViewRow} {node property : String} {value other : Value} {place : Place}

theorem assign_data : (r.assign node property value).1.data =
    (r.data.alterNode node (Keyed.insert property value ·)).1 := by
  unfold assign
  split
  next altered => rw [altered]
  next altered => rw [altered]

theorem assign_outcome : (r.assign node property value).2 =
    (r.data.alterNode node (Keyed.insert property value ·)).2 := by
  unfold assign
  split
  next altered => rw [altered]
  next altered => rw [altered]

theorem mem_changed_of_assign (assigned : (r.assign node property value).2 = .ok ()) :
    Path.child node property ∈ (r.assign node property value).1.changed := by
  unfold assign at assigned ⊢
  split
  · exact Names.mem_insert.mpr (.inl rfl)
  next failed =>
    rw [failed] at assigned
    contradiction

theorem stands_assign (assigned : (r.assign node property value).2 = .ok ()) :
    ∃ place, Path.place? node property = some place ∧
      (Value.row (r.assign node property value).1.data).atPlace? place = some value := by
  rw [assign_data]
  exact Row.stands_alterNode (assign_outcome ▸ assigned)

theorem stands_assign_of_spared (stands : (Value.row r.data).atPlace? place = some other)
    (spared : ∀ changed, Path.place? node property = some changed → changed.Spares place other) :
    (Value.row (r.assign node property value).1.data).atPlace? place = some other := by
  rw [assign_data]
  exact Row.stands_alterNode_of_spared stands spared

end ViewRow

/-- Where a value can be set: a property of a node of a root row. -/
structure Slot where
  row : Nat
  node : String
  property : String
  place : Place
deriving DecidableEq

def Slot.Overlaps (a b : Slot) : Prop :=
  a.row = b.row ∧ a.place.Overlaps b.place

instance (a b : Slot) : Decidable (a.Overlaps b) :=
  inferInstanceAs (Decidable (_ ∧ _))

/-- A value that is set under a path. -/
structure Edit where
  value : Value
  row : Nat
  path : String

namespace View

variable {v : View} {row : Nat} {path : String} {value other : Value} {slot : Slot}

/-- The slot that a path names, if a value can be set there. -/
def slot? (v : View) (row : Nat) (path : String) : Option Slot :=
  match v.resolve row path with
  | .error _ => none
  | .ok (row, path) =>
    if (Path.property path).toList.contains '[' then none
    else (Path.place? (Path.node path) (Path.property path)).map
      (⟨row, Path.node path, Path.property path, ·⟩)

def Holds (v : View) (slot : Slot) (value : Value) : Prop :=
  ∃ r, v.rows[slot.row]? = some r ∧ (Value.row r.data).atPlace? slot.place = some value

/-- The view after values have been set one after the other, whether or not each could be. -/
def edited (v : View) (edits : List Edit) : View :=
  edits.foldl (fun v edit => (v.setValue edit.value edit.row edit.path).1) v

theorem edited_split (before after : List Edit) (edit : Edit) : v.edited (before ++ edit :: after) =
    ((v.edited before).setValue edit.value edit.row edit.path).1.edited after := by
  rw [edited, List.foldl_append, List.foldl_cons]
  rfl

theorem openSteps_congr {w : View} (compiled : w.compiled = v.compiled) (above : String) (place : Nat)
    (steps : List PathStep) : w.openSteps above place steps = v.openSteps above place steps := by
  induction steps generalizing above place with
  | nil => rfl
  | cons step rest ih =>
      cases rest with
      | nil => rfl
      | cons next others => simp only [openSteps, ih, compiled]

theorem slot?_congr {w : View} (compiled : w.compiled = v.compiled) (length : w.rows.length = v.rows.length) :
    w.slot? row path = v.slot? row path := by
  simp only [slot?, resolve, openSteps_congr compiled, length]

theorem openSteps_lt {above : String} {place found : Nat} {steps : List PathStep}
    (member : found ∈ v.openSteps above place steps) : place ≤ found ∧ found + 1 < place + steps.length := by
  induction steps generalizing above place with
  | nil => simp [openSteps] at member
  | cons step rest ih =>
      cases rest with
      | nil => simp [openSteps] at member
      | cons next others =>
          have later (inside : found ∈ v.openSteps (Path.child above step.property) (place + 1)
              (next :: others)) := ih inside
          simp only [openSteps] at member
          simp only [List.length_cons] at later ⊢
          split at member
          · rcases List.mem_cons.mp member with rfl | inside
            · omega
            · have bounds := later inside
              omega
          · have bounds := later member
            omega

theorem property_ne_empty_of_resolve {number : Nat} {resolved : String}
    (found : v.resolve row path = .ok (number, resolved)) : Path.property resolved ≠ "" := by
  obtain ⟨steps, parsed, found⟩ := bind_eq_ok.mp found
  split at found
  · cases found
    exact Path.property_ne_empty_of_read parsed
  next place single =>
    split at found
    · cases found
      have member : place ∈ v.openSteps "" 0 steps := by
        rw [single]
        exact List.mem_singleton_self _
      have early := (openSteps_lt member).2
      exact Path.property_ne_empty_of_modify parsed (by omega) _
    · contradiction
  · contradiction

theorem setValue_compiled : (v.setValue value row path).1.compiled = v.compiled := by
  unfold setValue
  split
  · rfl
  · split
    · rfl
    · simp only
      split <;> rfl

theorem setValue_length : (v.setValue value row path).1.rows.length = v.rows.length := by
  unfold setValue
  split
  · rfl
  · split
    · rfl
    · simp only
      split
      · rfl
      · exact List.length_set ..

theorem edited_compiled (edits : List Edit) : (v.edited edits).compiled = v.compiled := by
  induction edits generalizing v with
  | nil => rfl
  | cons edit rest ih => exact ih.trans setValue_compiled

theorem edited_length (edits : List Edit) : (v.edited edits).rows.length = v.rows.length := by
  induction edits generalizing v with
  | nil => rfl
  | cons edit rest ih => exact ih.trans setValue_length

theorem setValue_removed : (v.setValue value row path).1.removed = v.removed := by
  unfold setValue
  split
  · rfl
  · split
    · rfl
    · simp only
      split <;> rfl

theorem edited_removed (edits : List Edit) : (v.edited edits).removed = v.removed := by
  induction edits generalizing v with
  | nil => rfl
  | cons edit rest ih => exact ih.trans setValue_removed

theorem slot?_eq_some (named : v.slot? row path = some slot) : ∃ resolved,
    v.resolve row path = .ok (slot.row, resolved) ∧ slot.node = Path.node resolved ∧
      slot.property = Path.property resolved ∧ slot.property.toList.contains '[' = false ∧
      Path.place? slot.node slot.property = some slot.place := by
  unfold slot? at named
  split at named
  · contradiction
  next number resolved found =>
    split at named
    · contradiction
    next plain =>
      obtain ⟨place, placed, rfl⟩ := Option.map_eq_some_iff.mp named
      exact ⟨resolved, found, rfl, rfl, by simpa using plain, placed⟩

theorem slot?_of_resolve {number : Nat} {resolved : String} {place : Place}
    (found : v.resolve row path = .ok (number, resolved))
    (plain : ¬ (Path.property resolved).toList.contains '[' = true)
    (placed : Path.place? (Path.node resolved) (Path.property resolved) = some place) :
    v.slot? row path = some ⟨number, Path.node resolved, Path.property resolved, place⟩ := by
  simp only [slot?, found, if_neg plain, placed, Option.map_some]

/-- What is set stands in its slot, and is recorded as changed. -/
theorem records_setValue (set : (v.setValue value row path).2 = .ok ()) :
    ∃ slot r, v.slot? row path = some slot ∧ (v.setValue value row path).1.rows[slot.row]? = some r ∧
      (Value.row r.data).atPlace? slot.place = some value ∧ Path.child slot.node slot.property ∈ r.changed := by
  unfold setValue at set ⊢
  split at set
  · contradiction
  next number resolved found =>
    split at set
    · contradiction
    next r standing =>
      simp only at set
      split at set
      · contradiction
      next plain =>
        obtain ⟨place, placed, stands⟩ := ViewRow.stands_assign (r := r) set
        obtain ⟨inside, -⟩ := List.getElem?_eq_some_iff.mp standing
        refine ⟨_, _, slot?_of_resolve found plain placed, ?_, stands, ViewRow.mem_changed_of_assign set⟩
        dsimp only
        rw [if_neg plain]
        exact List.getElem?_set_self inside

theorem holds_setValue (set : (v.setValue value row path).2 = .ok ()) :
    ∃ slot, v.slot? row path = some slot ∧ (v.setValue value row path).1.Holds slot value := by
  obtain ⟨slot, r, named, standing, stands, -⟩ := records_setValue set
  exact ⟨slot, named, r, standing, stands⟩

theorem holds_setValue_of_spared (holds : v.Holds slot other)
    (spared : ∀ changed, v.slot? row path = some changed → changed.row = slot.row →
      changed.place.Spares slot.place other) :
    (v.setValue value row path).1.Holds slot other := by
  obtain ⟨r, standing, stands⟩ := holds
  unfold setValue
  split
  · exact ⟨r, standing, stands⟩
  next number resolved found =>
    split
    · exact ⟨r, standing, stands⟩
    next changed there =>
      simp only
      split
      · exact ⟨r, standing, stands⟩
      next plain =>
        by_cases same : number = slot.row
        · subst same
          cases standing.symm.trans there
          obtain ⟨inside, -⟩ := List.getElem?_eq_some_iff.mp standing
          refine ⟨_, List.getElem?_set_self inside, ViewRow.stands_assign_of_spared stands fun place placed => ?_⟩
          exact spared _ (slot?_of_resolve found plain placed) rfl
        · exact ⟨r, (List.getElem?_set_ne same).trans standing, stands⟩

theorem value_of_holds (named : v.slot? row path = some slot) (holds : v.Holds slot value) :
    v.value row path = .ok value := by
  obtain ⟨resolved, found, node, property, plain, placed⟩ := slot?_eq_some named
  obtain ⟨r, standing, stands⟩ := holds
  obtain ⟨data, there, held⟩ := Row.nodeAt_of_stands placed stands
  have readable := PathStep.read_of_plain (property ▸ property_ne_empty_of_resolve found) plain
  rw [node] at there
  rw [property] at readable held
  have plainValue : valueIn (some data) ⟨Path.property resolved, none⟩ = .ok value := by
    simp only [valueIn, held, Option.getD_some]
  simp only [View.value, found, standing, readable, there, plainValue, Except.mapError, bind, Except.bind]

end View

end ViewEngine
