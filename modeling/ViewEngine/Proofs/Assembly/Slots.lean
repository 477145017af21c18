import Mathlib.Data.List.Infix
import Mathlib.Data.String.Basic
import Mathlib.Order.Basic
import ViewEngine.Proofs.Keyed
import ViewEngine.View.Assembly

/-!
The places inside a row where collections stand. Writing at one place leaves alone what stands at places
apart from it, and places apart are written in any order.
-/

namespace ViewEngine

namespace Row

def Apart (places others : List String) : Prop :=
  ¬ places <+: others ∧ ¬ others <+: places

/-- What stands at a place, where there is a row to hold it. -/
def slot? (row : Row) : List String → Option (Option Value)
  | [] => none
  | property :: rest =>
    if rest.isEmpty then some (row.get? property)
    else ((row.get? property).bind Value.asRow?).bind fun fields => slot? fields rest

/-- A row with a value written at a place that is there, over what is held there before. -/
inductive Writes (value : Value) : List String → Option Value → Row → Row → Prop
  | last (property : String) (row : Row) :
      Writes value [property] (row.get? property) row (row.insert property value)
  | inside {property : String} {rest : List String} {held : Option Value} {row fields inner : Row}
      (found : row.get? property = some (.row fields)) (below : Writes value rest held fields inner) :
      Writes value (property :: rest) held row (row.insert property (.row inner))

section Writes

variable {p q : List String} {row written other inner : Row} {held wanted : Option Value} {value second : Value}
  {change : Option Value → Option Value} {property key : String}

theorem Apart.symm (apart : Apart p q) : Apart q p :=
  ⟨apart.2, apart.1⟩

theorem Apart.tail (apart : Apart (property :: p) (property :: q)) : Apart p q :=
  ⟨fun starts => apart.1 (List.cons_prefix_cons.mpr ⟨rfl, starts⟩),
    fun starts => apart.2 (List.cons_prefix_cons.mpr ⟨rfl, starts⟩)⟩

theorem Apart.irrefl : ¬ Apart p p :=
  fun apart => apart.1 (List.prefix_refl p)

theorem Writes.ne_nil (writes : Writes value p held row written) : p ≠ [] := by
  cases writes <;> simp

theorem slot?_cons (found : row.get? property = some (.row inner)) (nonempty : p ≠ []) :
    row.slot? (property :: p) = inner.slot? p := by
  rw [slot?, if_neg (by rwa [List.isEmpty_iff]), found]
  rfl

theorem Writes.before (writes : Writes value p held row written) : row.slot? p = some held := by
  induction writes with
  | last property row => rfl
  | inside found below ih => rw [slot?_cons found below.ne_nil, ih]

theorem Writes.after (writes : Writes value p held row written) : written.slot? p = some (some value) := by
  induction writes with
  | last property row => exact congrArg some (Keyed.get?_insert_self property value row)
  | inside found below ih => rw [slot?_cons (Keyed.get?_insert_self ..) below.ne_nil, ih]

theorem exists_writes (stands : row.slot? p = some held) (value : Value) : ∃ written, Writes value p held row written := by
  induction p generalizing row with
  | nil => contradiction
  | cons property rest ih =>
      cases rest with
      | nil =>
          cases stands
          exact ⟨_, .last property row⟩
      | cons next others =>
          obtain ⟨fields, found, stands⟩ := Option.bind_eq_some_iff.mp stands
          obtain ⟨found, isFound, isRow⟩ := Option.bind_eq_some_iff.mp found
          obtain ⟨inner, below⟩ := ih stands
          cases found with
          | row fields =>
              cases isRow
              exact ⟨_, .inside isFound below⟩
          | _ => contradiction

theorem valueAt?_eq (row : Row) (p : List String) : row.valueAt? p = (row.slot? p).join := by
  induction p generalizing row with
  | nil => rfl
  | cons property rest ih =>
      cases rest with
      | nil => rfl
      | cons next others =>
          rw [valueAt?, slot?, if_neg (by simp)]
          · cases row.get? property with
            | none => rfl
            | some held =>
                cases held with
                | row fields => exact ih fields
                | _ => rfl
          · simp

theorem Writes.alterAt? (writes : Writes value p held row written) (changed : change held = some value) :
    row.alterAt? change p = some written := by
  induction writes with
  | last property row => rw [Row.alterAt?, changed, Option.map_some]
  | @inside property rest held row fields inner found below ih =>
      cases rest with
      | nil => exact absurd rfl below.ne_nil
      | cons next others =>
          rw [Row.alterAt?, found]
          · simp only [ih changed, Option.map_some]
          · simp

theorem exists_of_alterAt? (altered : row.alterAt? change p = some written) :
    ∃ held value, Writes value p held row written ∧ change held = some value := by
  induction p generalizing row written with
  | nil => contradiction
  | cons property rest ih =>
      cases rest with
      | nil =>
          obtain ⟨value, changed, rfl⟩ := Option.map_eq_some_iff.mp altered
          exact ⟨_, value, .last property row, changed⟩
      | cons next others =>
          rw [Row.alterAt?] at altered
          · split at altered
            next fields found =>
              obtain ⟨inner, below, rfl⟩ := Option.map_eq_some_iff.mp altered
              obtain ⟨held, value, writes, changed⟩ := ih below
              exact ⟨held, value, .inside found writes, changed⟩
            next => contradiction
          · simp

theorem alterAt?_eq_none (missing : row.slot? p = none) : row.alterAt? change p = none := by
  cases altered : row.alterAt? change p with
  | none => rfl
  | some written =>
      obtain ⟨held, value, writes, -⟩ := exists_of_alterAt? altered
      rw [writes.before] at missing
      contradiction

theorem Writes.slot?_of_apart (writes : Writes value p held row written) (apart : Apart p q) :
    written.slot? q = row.slot? q := by
  induction writes generalizing q with
  | last property row =>
      cases q with
      | nil => rfl
      | cons name rest =>
          have different : name ≠ property := by
            rintro rfl
            exact apart.1 (List.cons_prefix_cons.mpr ⟨rfl, List.nil_prefix⟩)
          rw [slot?, slot?, Keyed.get?_insert_of_ne different]
  | @inside property rest held row fields inner found below ih =>
      cases q with
      | nil => rfl
      | cons name others =>
          by_cases same : name = property
          · subst same
            have nonempty : others ≠ [] := by
              rintro rfl
              exact apart.2 (List.cons_prefix_cons.mpr ⟨rfl, List.nil_prefix⟩)
            rw [slot?_cons (Keyed.get?_insert_self ..) nonempty, slot?_cons found nonempty, ih apart.tail]
          · rw [slot?, slot?, Keyed.get?_insert_of_ne same]

theorem Writes.get?_of_ne (writes : Writes value p held row written) (different : p.head? ≠ some key) :
    written.get? key = row.get? key := by
  cases writes with
  | last property row => exact Keyed.get?_insert_of_ne (fun same => different (congrArg some same.symm)) ..
  | inside found below => exact Keyed.get?_insert_of_ne (fun same => different (congrArg some same.symm)) ..

/-- What was written before at the place makes no difference. -/
theorem Writes.again (writes : Writes value p held row written) (rewrites : Writes second p wanted row other) :
    Writes second p (some value) written other := by
  induction writes generalizing other wanted with
  | last property row =>
      cases rewrites with
      | last =>
          have again : Writes second [property] _ (row.insert property value) _ := .last property _
          rwa [Keyed.get?_insert_self, Keyed.insert_insert] at again
      | inside found below => exact absurd rfl below.ne_nil
  | @inside property rest held row fields inner found below ih =>
      cases rewrites with
      | last => exact absurd rfl below.ne_nil
      | inside foundAgain belowAgain =>
          cases found.symm.trans foundAgain
          have again := Writes.inside (Keyed.get?_insert_self property (.row inner) row) (ih belowAgain)
          rwa [Keyed.insert_insert] at again

/-- Only the first property of a place is written in the row at hand, whatever else that holds. -/
theorem Writes.top (writes : Writes value p held row written) :
    ∃ property top, p.head? = some property ∧ written = row.insert property top ∧
      ∀ other : Row, other.get? property = row.get? property → Writes value p held other (other.insert property top) := by
  cases writes with
  | last property row =>
      refine ⟨property, value, rfl, rfl, fun other same => ?_⟩
      rw [← same]
      exact .last property other
  | @inside property rest held row fields inner found below =>
      exact ⟨property, .row inner, rfl, rfl, fun other same => .inside (same.trans found) below⟩

theorem Writes.comm_of_head (writes : Writes value p held row written) (others : Writes second q wanted row other)
    (different : p.head? ≠ q.head?) :
    ∃ both, Writes second q wanted written both ∧ Writes value p held other both := by
  obtain ⟨first, top, head, rfl, here⟩ := writes.top
  obtain ⟨name, topOther, headOther, rfl, there⟩ := others.top
  have apart : name ≠ first := by
    rintro rfl
    exact different (head.trans headOther.symm)
  refine ⟨_, there _ (Keyed.get?_insert_of_ne apart ..), ?_⟩
  rw [Keyed.insert_comm apart]
  exact here _ (Keyed.get?_insert_of_ne apart.symm ..)

theorem Writes.comm (writes : Writes value p held row written) (others : Writes second q wanted row other)
    (apart : Apart p q) : ∃ both, Writes second q wanted written both ∧ Writes value p held other both := by
  induction writes generalizing q other wanted with
  | last property row =>
      refine (Writes.last property row).comm_of_head others fun same => ?_
      cases q with
      | nil => contradiction
      | cons name rest =>
          cases same
          exact apart.1 (List.cons_prefix_cons.mpr ⟨rfl, List.nil_prefix⟩)
  | @inside property rest held row fields inner found below ih =>
      by_cases same : some property = q.head?
      · cases others with
        | last =>
            cases same
            exact absurd (List.cons_prefix_cons.mpr ⟨rfl, List.nil_prefix⟩) apart.2
        | inside foundAgain belowAgain =>
            cases same
            cases found.symm.trans foundAgain
            obtain ⟨both, first, second⟩ := ih belowAgain apart.tail
            refine ⟨row.insert property (.row both), ?_, ?_⟩
            · have again := Writes.inside (Keyed.get?_insert_self property (.row inner) row) first
              rwa [Keyed.insert_insert] at again
            · rename_i otherInner
              have again := Writes.inside (Keyed.get?_insert_self property (.row otherInner) row) second
              rwa [Keyed.insert_insert] at again
      · exact (Writes.inside found below).comm_of_head others same

end Writes

section Started

variable {p q : List String} {row written : Row} {held : Option Value} {value : Value}

theorem startCollection_of_writes (writes : Writes (.list []) p held row written) :
    startCollection p row = written := by
  rw [startCollection, writes.alterAt? rfl, Option.getD_some]

theorem startCollection_of_none (missing : row.slot? p = none) : startCollection p row = row := by
  rw [startCollection, alterAt?_eq_none missing, Option.getD_none]

theorem slot?_startCollection (p : List String) (row : Row) :
    (startCollection p row).slot? p = (row.slot? p).map fun _ => some (.list []) := by
  cases before : row.slot? p with
  | none => rw [startCollection_of_none before, before, Option.map_none]
  | some old =>
      obtain ⟨written, writes⟩ := exists_writes before (.list [])
      rw [startCollection_of_writes writes, writes.after, Option.map_some]

theorem slot?_startCollection_of_apart (apart : Apart p q) : (startCollection p row).slot? q = row.slot? q := by
  cases before : row.slot? p with
  | none => rw [startCollection_of_none before]
  | some old =>
      obtain ⟨written, writes⟩ := exists_writes before (.list [])
      rw [startCollection_of_writes writes, writes.slot?_of_apart apart]

/-- A collection that is started has none of the elements that were written into it. -/
theorem Writes.startCollection (writes : Writes value p held row written) :
    Row.startCollection p written = Row.startCollection p row := by
  obtain ⟨other, rewrites⟩ := exists_writes writes.before (.list [])
  rw [startCollection_of_writes (writes.again rewrites), startCollection_of_writes rewrites]

theorem Writes.startCollection_of_apart (writes : Writes value p held row written) (apart : Apart p q) :
    Writes value p held (Row.startCollection q row) (Row.startCollection q written) := by
  cases before : row.slot? q with
  | none =>
      rwa [startCollection_of_none before, startCollection_of_none ((writes.slot?_of_apart apart).trans before)]
  | some old =>
      obtain ⟨other, rewrites⟩ := exists_writes before (.list [])
      obtain ⟨both, first, second⟩ := writes.comm rewrites apart
      rwa [startCollection_of_writes rewrites, startCollection_of_writes first]

theorem startCollection_comm (apart : Apart p q) (row : Row) :
    startCollection p (startCollection q row) = startCollection q (startCollection p row) := by
  cases before : row.slot? p with
  | none =>
      rw [startCollection_of_none before,
        startCollection_of_none ((slot?_startCollection_of_apart apart.symm).trans before)]
  | some old =>
      obtain ⟨written, writes⟩ := exists_writes before (.list [])
      rw [startCollection_of_writes writes, startCollection_of_writes (writes.startCollection_of_apart apart)]

theorem startCollection_startCollection (p : List String) (row : Row) :
    startCollection p (startCollection p row) = startCollection p row := by
  cases before : row.slot? p with
  | none => rw [startCollection_of_none before, startCollection_of_none before]
  | some old =>
      obtain ⟨written, writes⟩ := exists_writes before (.list [])
      rw [startCollection_of_writes writes, writes.startCollection, startCollection_of_writes writes]

def startAll (places : List (List String)) (row : Row) : Row :=
  places.foldl (fun row p => startCollection p row) row

variable {places : List (List String)}

theorem startAll_startCollection (apart : ∀ q ∈ places, Apart p q) (row : Row) :
    startAll places (startCollection p row) = startCollection p (startAll places row) := by
  induction places generalizing row with
  | nil => rfl
  | cons q rest ih =>
      have first := startCollection_comm (apart q (List.mem_cons_self ..)).symm row
      rw [startAll, List.foldl_cons, first]
      exact ih (fun other later => apart other (List.mem_cons_of_mem _ later)) _

theorem startAll_startAll (apart : places.Pairwise Apart) (row : Row) :
    startAll places (startAll places row) = startAll places row := by
  induction places generalizing row with
  | nil => rfl
  | cons p rest ih =>
      obtain ⟨first, apart⟩ := List.pairwise_cons.mp apart
      calc startAll rest (startCollection p (startAll rest (startCollection p row)))
        _ = startCollection p (startAll rest (startAll rest (startCollection p row))) := startAll_startCollection first _
        _ = startCollection p (startCollection p (startAll rest row)) := by
          rw [ih apart, startAll_startCollection first]
        _ = startAll rest (startCollection p row) := by
          rw [startCollection_startCollection, startAll_startCollection first]

theorem slot?_startAll_of_apart (apart : ∀ q ∈ places, Apart p q) : (startAll places row).slot? p = row.slot? p := by
  induction places generalizing row with
  | nil => rfl
  | cons q rest ih =>
      exact (ih fun other later => apart other (List.mem_cons_of_mem _ later)).trans
        (slot?_startCollection_of_apart (apart q (List.mem_cons_self ..)).symm)

theorem slot?_startAll (apart : places.Pairwise Apart) (member : p ∈ places) (row : Row) :
    (startAll places row).slot? p = (row.slot? p).map fun _ => some (.list []) := by
  induction places generalizing row with
  | nil => contradiction
  | cons q rest ih =>
      obtain ⟨first, apart⟩ := List.pairwise_cons.mp apart
      rw [startAll, List.foldl_cons, ← startAll]
      rcases List.mem_cons.mp member with rfl | later
      · rw [slot?_startAll_of_apart first, slot?_startCollection]
      · rw [ih apart later, slot?_startCollection_of_apart (first p later)]

theorem Writes.startAll (writes : Writes value p held row written) (apart : places.Pairwise Apart)
    (member : p ∈ places) : Row.startAll places written = Row.startAll places row := by
  induction places generalizing row written with
  | nil => contradiction
  | cons q rest ih =>
      obtain ⟨first, apart⟩ := List.pairwise_cons.mp apart
      rw [Row.startAll, Row.startAll, List.foldl_cons, List.foldl_cons]
      rcases List.mem_cons.mp member with rfl | later
      · rw [writes.startCollection]
      · exact ih (writes.startCollection_of_apart (first p later).symm) apart later

end Started

end Row

end ViewEngine
