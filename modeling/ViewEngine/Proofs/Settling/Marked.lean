import Mathlib.Data.List.InsertIdx
import ViewEngine.Proofs.Addressing.Refused
import ViewEngine.Proofs.Settling.Settled

/-!
The rows that are not stored yet. What tells them from stored ones is a mark among their properties, where a path can
name it. Main statement: as long as no path begins with the mark, the rows that have it are just those that were
appended since the last flush that succeeded, and these are inserted.
-/

namespace ViewEngine

open Planning

namespace Path

variable {part name node property path : String} {parts : List String} {steps : List PathStep} {step : PathStep}

/-- The property that a path begins with. -/
def start (path : String) : String :=
  String.ofList (path.toList.takeWhile fun c => c != '.' && c != '[')

def IsMarked (path : String) : Prop :=
  start path = newRowMark

instance (path : String) : Decidable (IsMarked path) :=
  inferInstanceAs (Decidable (_ = _))

theorem takeWhile_append_stop {p : Char → Bool} {stop : Char} (stops : p stop = false) (characters rest : List Char) :
    (characters ++ stop :: rest).takeWhile p = characters.takeWhile p := by
  induction characters with
  | nil => simp [stops]
  | cons c characters ih =>
      rw [List.cons_append, List.takeWhile_cons, List.takeWhile_cons, ih]

theorem start_append (node property : String) : start (node ++ "." ++ property) = start node := by
  have characters : (node ++ "." ++ property).toList = node.toList ++ '.' :: property.toList := by simp
  rw [start, characters, takeWhile_append_stop rfl, start]

theorem start_child (below : node ≠ "") (property : String) : start (child node property) = start node := by
  rw [child, if_neg (by simpa [String.isEmpty_iff] using below), start_append]

theorem start_node (below : Path.node path ≠ "") : start (Path.node path) = start path := by
  obtain ⟨-, ⟨root, -⟩ | same⟩ := splitProperty_cases path
  · exact absurd root below
  · conv_rhs => rw [same]
    exact (start_append ..).symm

theorem start_of_part (isPart : IsPart part name) (unopened : '[' ∉ name.toList) : start part = name := by
  have plain : ∀ c ∈ name.toList, (c != '.' && c != '[') = true := by
    intro c member
    rw [Bool.and_eq_true, bne_iff_ne, bne_iff_ne]
    exact ⟨fun dot => isPart.whole_property (dot ▸ member), fun bracket => unopened (bracket ▸ member)⟩
  have alone : name.toList.takeWhile (fun c => c != '.' && c != '[') = name.toList := List.takeWhile_eq_self_iff.mpr plain
  rcases isPart.shape with rfl | ⟨number, -, shape⟩
  · rw [start, alone, String.ofList_toList]
  · rw [start, shape, List.cons_append, takeWhile_append_stop rfl, alone, String.ofList_toList]

theorem start_of_parts (each : List.Forall₂ IsPart parts (name :: steps.map (·.property))) (unopened : '[' ∉ name.toList) :
    start (".".intercalate parts) = name := by
  cases each with
  | @cons part _ parts _ isPart _ =>
      cases parts with
      | nil => exact start_of_part isPart unopened
      | cons next rest =>
          rw [String.intercalate_cons_cons, start_append]
          exact start_of_part isPart unopened

theorem ne_empty_of_part (isPart : IsPart part name) (filled : name ≠ "") : part ≠ "" := by
  rintro rfl
  rcases isPart.shape with same | ⟨number, -, shape⟩
  · exact filled same.symm
  · simp at shape

theorem ne_nil_of_read (parsed : read path = .ok steps) : steps ≠ [] := by
  rintro rfl
  exact Text.split_ne_nil '.' path (List.forall₂_nil_right_iff.mp (parts_of_read parsed).2)

theorem start_of_read (parsed : read path = .ok (step :: steps)) : start path = step.property := by
  obtain ⟨same, each⟩ := parts_of_read parsed
  rw [same]
  exact start_of_parts each (unopened_of_read parsed _ (List.mem_cons_self ..))

end Path

namespace Row

variable {row : Row} {node property name : String} {value : Value}

theorem get?_alterNode (root : node = "" → property ≠ name) (below : node ≠ "" → Path.start node ≠ name) :
    Keyed.get? (row.alterNode node (Keyed.insert property value ·)).1 name = Keyed.get? row name := by
  unfold alterNode
  split
  next empty => exact Keyed.get?_insert_of_ne (root (String.isEmpty_iff.mp empty)).symm value row
  next filled =>
    split
    next steps parsed =>
      cases steps with
      | nil => exact absurd rfl (Path.ne_nil_of_read parsed)
      | cons step rest =>
          have other := below fun empty => filled (String.isEmpty_iff.mpr empty)
          rw [Path.start_of_read parsed] at other
          exact Keyed.get?_insert_of_ne other.symm _ row
    next => rfl

theorem contains_insert (held : Keyed.contains row name = true) (key : String) (value : Value) :
    (Keyed.insert key value row).contains name = true := by
  by_cases same : name = key
  · rw [same, Keyed.contains, Keyed.get?_insert_self, Option.isSome_some]
  · rwa [Keyed.contains, Keyed.get?_insert_of_ne same]

theorem contains_alterNode (held : Keyed.contains row name = true) (node property : String) (value : Value) :
    (row.alterNode node (Keyed.insert property value ·)).1.contains name = true := by
  unfold alterNode
  split
  · exact contains_insert held ..
  · split
    next steps _ =>
      cases steps with
      | nil => exact contains_insert held ..
      | cons step rest => exact contains_insert held ..
    next => exact held

end Row

namespace ViewRow

variable {r : ViewRow} {node property : String} {value : Value}

def SparesMark (r : ViewRow) : Prop :=
  ∀ path ∈ r.changed, ¬ Path.IsMarked path

theorem assign_isNew (unmarked : ¬ Path.IsMarked (Path.child node property)) (value : Value) :
    (r.assign node property value).1.isNew = r.isNew := by
  have same : Keyed.get? (r.data.alterNode node (Keyed.insert property value ·)).1 newRowMark =
      Keyed.get? r.data newRowMark := by
    refine Row.get?_alterNode ?_ fun below => ?_
    · rintro rfl rfl
      exact unmarked (by decide +kernel)
    · rwa [Path.IsMarked, Path.start_child below] at unmarked
  rw [isNew, isNew, assign_data, Keyed.contains, Keyed.contains, same]

theorem assign_new (isNew : r.isNew = true) (node property : String) (value : Value) :
    (r.assign node property value).1.isNew = true := by
  rw [ViewRow.isNew, assign_data]
  exact Row.contains_alterNode isNew ..

theorem SparesMark.assign (spares : r.SparesMark) (unmarked : ¬ Path.IsMarked (Path.child node property)) (value : Value) :
    (r.assign node property value).1.SparesMark := by
  unfold ViewRow.assign
  split
  · intro path member
    rcases Names.mem_insert.mp member with rfl | earlier
    · exact unmarked
    · exact spares path earlier
  · exact spares

end ViewRow

/-- No join column has a property at a node above that is the mark, or a path from it. -/
def CompiledView.LinksSpareMark (v : CompiledView) : Prop :=
  ∀ entry ∈ v.joinPlan.entries, ∀ pair ∈ entry.subject.joinColumns,
    ∀ a ∈ entry.sourceEntity.column? pair.source, ¬ Path.IsMarked a.property

instance (v : CompiledView) : Decidable v.LinksSpareMark :=
  inferInstanceAs (Decidable (∀ entry ∈ v.joinPlan.entries, ∀ pair ∈ entry.subject.joinColumns,
    ∀ a ∈ entry.sourceEntity.column? pair.source, ¬ Path.IsMarked a.property))

namespace ViewRow

variable {r : ViewRow} {node above property : String} {entry : JoinEntry} {pair : JoinColumn}

/-- What takes a value over is not reached by the mark. -/
theorem SparesMark.receiver {v : CompiledView} (spares : r.SparesMark) (links : v.LinksSpareMark) (isChanged : node ∈ r.changedNodes)
    (member : entry ∈ v.joinPlan.entries) (joined : pair ∈ entry.subject.joinColumns)
    (receives : receiver? entry node pair = some (above, property)) : ¬ Path.IsMarked (Path.child above property) := by
  obtain ⟨⟨path, changed, rfl⟩, filled⟩ := mem_changedNodes.mp isChanged
  have below : Path.node path ≠ "" := fun root => by simp [root] at filled
  have unmarked : ¬ Path.IsMarked (Path.node path) := by
    rw [Path.IsMarked, Path.start_node below]
    exact spares path changed
  obtain ⟨rfl, -⟩ | ⟨rfl, upper, found, rfl⟩ := receiver?_cases receives
  · rwa [Path.IsMarked, Path.start_child below]
  · by_cases root : Path.node (Path.node path) = ""
    · rw [root]
      exact links entry member pair joined upper found
    · rwa [Path.IsMarked, Path.start_child root, Path.start_node root]

theorem SparesMark.propagate {v : CompiledView} (spares : r.SparesMark) (links : v.LinksSpareMark) (strict : Bool) :
    (r.propagate strict v.joinPlan).1.isNew = r.isNew ∧ (r.propagate strict v.joinPlan).1.SparesMark := by
  refine @propagate_preserves_received r strict v.joinPlan (fun after => after.isNew = r.isNew ∧ after.SparesMark) ?_
    ⟨rfl, spares⟩
  intro state node entry pair receiver property value before isChanged found joined receives
  have unmarked := spares.receiver links isChanged (List.mem_of_find?_eq_some found) joined receives
  exact ⟨(state.assign_isNew unmarked value).trans before.1, before.2.assign unmarked value⟩

end ViewRow

namespace View

variable {v : View} {marks : List Bool} {gone : List Row} {settings : ViewSettings} {context : Context}
  {row number : Nat} {path positional : String} {value : Value}

theorem setValue_cases (v : View) (value : Value) (row : Nat) (path : String) :
    (v.setValue value row path).1 = v ∨ ∃ number positional r,
      v.resolve row path = .ok (number, positional) ∧ v.rows[number]? = some r ∧
        (v.setValue value row path).1 = { v with
          rows := v.rows.set number (r.assign (Path.node positional) (Path.property positional) value).1 } := by
  cases outcome : (v.setValue value row path).2 with
  | ok done =>
      obtain ⟨number, positional, r, found, standing, -, -, same⟩ := setValue_eq_ok outcome
      exact .inr ⟨number, positional, r, found, standing, same⟩
  | error cause =>
      exact (setValue_eq_error outcome).imp_right fun ⟨number, positional, r, found, standing, _, same⟩ =>
        ⟨number, positional, r, found, standing, same⟩

/-- A path begins with the same property once it is resolved, and is put together again from node and property. -/
theorem start_of_resolve (found : v.resolve row path = .ok (number, positional)) :
    Path.start positional = Path.start path ∧
      Path.child (Path.node positional) (Path.property positional) = positional := by
  obtain ⟨steps, parsed, -⟩ := bind_eq_ok.mp found
  obtain ⟨parts, rfl, each⟩ := resolve_parts found parsed
  have isPart : ∀ part ∈ parts, part ≠ "" ∧ '.' ∉ part.toList := by
    intro part member
    obtain ⟨name, named, isPart⟩ := exists_of_mem_left each member
    exact ⟨Path.ne_empty_of_part isPart (Path.filled_of_read parsed name named), isPart.whole⟩
  refine ⟨?_, ?_⟩
  · obtain ⟨step, rest, rfl⟩ := List.exists_cons_of_ne_nil (Path.ne_nil_of_read parsed)
    rw [Path.start_of_read parsed]
    exact Path.start_of_parts each (Path.unopened_of_read parsed _ (List.mem_cons_self ..))
  · obtain ⟨init, last, rfl⟩ := (List.eq_nil_or_concat' parts).resolve_left fun none => by
      rw [none] at each
      exact Path.ne_nil_of_read parsed (List.map_eq_nil_iff.mp (List.forall₂_nil_left_iff.mp each))
    have cut := Path.intercalate_concat (fun part member => (isPart part (List.mem_append_left _ member)).1) last
    have whole := (isPart last (List.mem_append_right _ (List.mem_singleton_self last))).2
    rw [cut, Path.node, Path.property, Path.splitProperty_child _ whole]

/-- Which rows of a view are new, that the stored ones which were taken out are on record, and that no change is
recorded under the mark. -/
structure MarksNew (v : View) (fresh : List Bool) (gone : List Row) : Prop where
  isNew : v.rows.map ViewRow.isNew = fresh
  removed : v.removed = gone
  ordered : v.IsOrdered
  spares : ∀ r ∈ v.rows, r.SparesMark

section Steps

variable {fresh : List Bool}

theorem marksNew_ofRows (compiled : CompiledView) {loaded : List Row} (ordered : ∀ row ∈ loaded, Keyed.IsAscending row)
    (stored : ∀ row ∈ loaded, Keyed.contains row newRowMark = false) :
    (ofRows compiled loaded).MarksNew (loaded.map fun _ => false) [] where
  isNew := by
    rw [ofRows, List.map_map]
    exact List.map_congr_left stored
  removed := rfl
  ordered := by
    intro r member
    obtain ⟨row, inside, rfl⟩ := List.mem_map.mp member
    exact ordered row inside
  spares := by
    intro r member
    obtain ⟨row, -, rfl⟩ := List.mem_map.mp member
    exact fun path none => absurd none List.not_mem_nil

theorem MarksNew.replace (marks : v.MarksNew fresh gone) {r after : ViewRow} (standing : v.rows[number]? = some r)
    (isNew : after.isNew = r.isNew) (ascending : Keyed.IsAscending after.data) (spares : after.SparesMark) :
    MarksNew { v with rows := v.rows.set number after } fresh gone where
  isNew := by
    have same : (v.rows.map ViewRow.isNew)[number]? = some after.isNew := by
      rw [List.getElem?_map, standing, isNew, Option.map_some]
    obtain ⟨inside, there⟩ := List.getElem?_eq_some_iff.mp same
    rw [List.map_set, ← there, List.set_getElem_self]
    exact marks.isNew
  removed := marks.removed
  ordered other member := by
    rcases List.mem_or_eq_of_mem_set member with before | rfl
    · exact marks.ordered other before
    · exact ascending
  spares other member := by
    rcases List.mem_or_eq_of_mem_set member with before | rfl
    · exact marks.spares other before
    · exact spares

theorem MarksNew.setValue (marks : v.MarksNew fresh gone) (unmarked : ¬ Path.IsMarked path) (value : Value) (row : Nat) :
    (v.setValue value row path).1.MarksNew fresh gone := by
  rcases setValue_cases v value row path with same | ⟨number, positional, r, found, standing, same⟩
  · rwa [same]
  · obtain ⟨start, whole⟩ := start_of_resolve found
    have inside := List.mem_of_getElem? standing
    have elsewhere : ¬ Path.IsMarked (Path.child (Path.node positional) (Path.property positional)) := by
      rwa [whole, Path.IsMarked, start]
    rw [same]
    refine marks.replace standing (ViewRow.assign_isNew elsewhere value) ?_ ((marks.spares r inside).assign elsewhere value)
    rw [ViewRow.assign_data]
    exact Row.isAscending_alterNode (marks.ordered r inside)

theorem setValue_new {r : ViewRow} (standing : v.rows[number]? = some r) (isNew : r.isNew = true) (value : Value)
    (row : Nat) (path : String) :
    ∃ after, (v.setValue value row path).1.rows[number]? = some after ∧ after.isNew = true := by
  rcases setValue_cases v value row path with same | ⟨other, positional, held, -, there, same⟩
  · rw [same]
    exact ⟨r, standing, isNew⟩
  · rw [same]
    by_cases own : other = number
    · subst own
      cases standing.symm.trans there
      exact ⟨_, List.getElem?_set_self (List.getElem?_eq_some_iff.mp standing).1, ViewRow.assign_new isNew ..⟩
    · exact ⟨r, (List.getElem?_set_ne own).trans standing, isNew⟩

theorem setValue_mark {r : ViewRow} (standing : v.rows[row]? = some r) (value : Value) :
    ∃ after, (v.setValue value row newRowMark).1.rows[row]? = some after ∧ after.isNew = true := by
  have whole : '.' ∉ newRowMark.toList := by decide
  have settable : isSettable newRowMark = true := by decide +kernel
  rw [setValue_of_whole whole, if_pos settable]
  refine ⟨⟨r.data.insert newRowMark value, r.changed.insert newRowMark⟩, ?_, ?_⟩
  · rw [List.getElem?_modify_eq, standing]
    rfl
  · rw [ViewRow.isNew, Keyed.contains, Keyed.get?_insert_self, Option.isSome_some]

theorem MarksNew.appendRow (marks : v.MarksNew fresh gone) : v.appendRow.1.MarksNew (fresh ++ [true]) gone where
  isNew := by
    rw [View.appendRow, List.map_append, marks.isNew]
    rfl
  removed := marks.removed
  ordered := by
    refine List.forall_mem_append.mpr ⟨marks.ordered, List.forall_mem_singleton.mpr ?_⟩
    exact List.pairwise_singleton ..
  spares := by
    refine List.forall_mem_append.mpr ⟨marks.spares, List.forall_mem_singleton.mpr ?_⟩
    exact fun path none => absurd none List.not_mem_nil

theorem MarksNew.removeRow (marks : v.MarksNew fresh gone) (row : Nat) : (v.removeRow row).1.MarksNew (fresh.eraseIdx row)
    (gone ++ if fresh[row]? = some false then v.data[row]?.toList else []) := by
  have isNew : fresh[row]? = v.rows[row]?.map ViewRow.isNew := by rw [← marks.isNew, List.getElem?_map]
  rw [View.removeRow]
  split
  next missing =>
    rw [missing] at isNew
    rw [List.eraseIdx_of_length_le (List.getElem?_eq_none_iff.mp isNew), isNew, Option.map_none,
      if_neg (Option.some_ne_none false).symm, List.append_nil]
    exact marks
  next r standing =>
    rw [standing] at isNew
    have data : v.data[row]? = some r.data := by rw [View.data, List.getElem?_map, standing, Option.map_some]
    refine ⟨?_, ?_, fun other member => marks.ordered other (List.mem_of_mem_eraseIdx member), fun other member =>
      marks.spares other (List.mem_of_mem_eraseIdx member)⟩
    · rw [← List.eraseIdx_map, marks.isNew]
    · rw [isNew, data, marks.removed, Option.map_some]
      cases r.isNew with
      | false => rw [if_pos rfl]; rfl
      | true => rw [if_pos rfl, if_neg (by decide), List.append_nil]

theorem MarksNew.plan (marks : v.MarksNew fresh gone) (links : v.compiled.LinksSpareMark) (settings : ViewSettings)
    (context : Context) : (v.plan settings context).1.MarksNew fresh gone := by
  have each : List.Forall₂ (fun r after => after.isNew = r.isNew ∧ after.SparesMark) v.rows
      (v.plan settings context).1.rows := by
    refine ((List.forall₂_and_left _ _).mpr ⟨marks.spares, v.plan_rows settings context⟩).imp ?_
    rintro r after ⟨spares, rfl | rfl⟩
    · exact ⟨rfl, spares⟩
    · exact spares.propagate links _
  have removed : (v.plan settings context).1.removed = v.removed := by rw [plan_view]
  refine ⟨?_, removed.trans marks.removed, marks.ordered.plan, fun after member => ?_⟩
  · rw [← marks.isNew, ← List.forall₂_eq_eq_eq, List.forall₂_map_left_iff, List.forall₂_map_right_iff]
    exact (each.imp fun _ _ => And.left).flip
  · obtain ⟨r, -, -, spares⟩ := exists_of_mem_left each.flip member
    exact spares

theorem length_foldl_reopen (now : Timestamp) (reopened : List Reopening) (rows : List ViewRow) :
    (reopened.foldl (reopen now) rows).length = rows.length := by
  induction reopened generalizing rows with
  | nil => rfl
  | cons next rest ih => rw [List.foldl_cons, ih, reopen, List.length_modify]

theorem MarksNew.reconcile (marks : v.MarksNew fresh gone) (now : Timestamp) (reopened : List Reopening) :
    (v.reconcile now reopened).MarksNew (fresh.map fun _ => false) [] := by
  have settled := marks.ordered.reconcile now reopened
  refine ⟨?_, settled.removed, fun r member => ?_, fun r member path changed => ?_⟩
  · have length : (v.reconcile now reopened).rows.length = v.rows.length := by
      rw [View.reconcile, List.length_map, length_foldl_reopen]
    rw [List.map_congr_left settled.stored, ← marks.isNew, List.map_map, List.map_const', length]
    exact (List.map_const' ..).symm
  · obtain ⟨before, inside, rfl⟩ := List.mem_map.mp member
    exact (isAscending_reopen marks.ordered now reopened before inside).erase newRowMark
  · rw [settled.unchanged r member] at changed
    contradiction

end Steps

end View

end ViewEngine
