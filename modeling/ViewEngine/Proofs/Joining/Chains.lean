import Mathlib.Data.List.Chain
import ViewEngine.View.JoinPlan

namespace ViewEngine.JoinPlan

def IsSequential (plan : JoinPlan) : Prop :=
  ∀ i j, plan.entries[i]? = some j → j.table = i + 1

/-- The number that comes behind those of the entries. -/
def IsNext (plan : JoinPlan) (table : Nat) : Prop :=
  table = plan.entries.length + 1

def HasTable (plan : JoinPlan) (table : Nat) : Prop :=
  table = 0 ∨ ∃ j ∈ plan.entries, j.table = table

/-- The entries that are found by going back from a table until one has no entry, with the last one found first. -/
inductive Traces (plan : JoinPlan) : Nat → List JoinEntry → Prop
  | stop {table : Nat} (none : plan.ofTable? table = none) : Traces plan table []
  | back {table : Nat} {way : List JoinEntry} {j : JoinEntry} (found : plan.ofTable? table = some j)
      (before : Traces plan j.source way) : Traces plan table (way ++ [j])

/-- Entries that lead from the root to a table, each from where the one before it ends. There are none for the root
itself, and for numbers that are no table of the plan. -/
structure IsWay (plan : JoinPlan) (table : Nat) (way : List JoinEntry) : Prop where
  planned : ∀ j ∈ way, j ∈ plan.entries
  start : ∀ j ∈ way.head?, j.source = 0
  linked : way.IsChain fun j k => k.source = j.table
  last : ∀ j ∈ way.getLast?, j.table = table
  empty : way = [] ↔ ∀ j ∈ plan.entries, j.table ≠ table

variable {plan further : JoinPlan} {j k : JoinEntry} {table : Nat} {way other : List JoinEntry}

theorem HasTable.mono (has : plan.HasTable table) (grown : plan.entries <+: further.entries) :
    further.HasTable table :=
  has.imp_right fun ⟨j, member, same⟩ => ⟨j, grown.subset member, same⟩

theorem IsNext.empty : ({} : JoinPlan).IsNext 1 :=
  rfl

theorem IsNext.add {next : Nat} (follows : plan.IsNext next) : (plan.add j).IsNext (next + 1) := by
  rw [IsNext, JoinPlan.add, List.length_append, List.length_singleton, ← follows]

theorem ofTable?_eq_some (found : plan.ofTable? table = some j) : j ∈ plan.entries ∧ j.table = table :=
  ⟨List.mem_of_find?_eq_some found, by simpa using List.find?_some found⟩

theorem ofTable?_eq_none_iff : plan.ofTable? table = none ↔ ∀ j ∈ plan.entries, j.table ≠ table := by
  simp [ofTable?]

section Numbers

variable (sequential : plan.IsSequential)

include sequential

theorem IsSequential.eq_of_table (left : j ∈ plan.entries) (right : k ∈ plan.entries) (same : j.table = k.table) :
    j = k := by
  obtain ⟨first, isFirst⟩ := List.getElem?_of_mem left
  obtain ⟨second, isSecond⟩ := List.getElem?_of_mem right
  have firstTable := sequential first j isFirst
  have secondTable := sequential second k isSecond
  obtain rfl : first = second := by omega
  exact Option.some.inj (isFirst.symm.trans isSecond)

theorem IsSequential.add (next : plan.IsNext j.table) : (plan.add j).IsSequential := by
  intro i k found
  rw [JoinPlan.add, List.getElem?_append] at found
  split at found
  · exact sequential i k found
  · rw [List.getElem?_singleton] at found
    split at found
    · cases found
      rw [next]
      omega
    · contradiction

theorem IsSequential.hasTable_iff : plan.HasTable table ↔ table ≤ plan.entries.length := by
  constructor
  · intro has
    rcases has with rfl | ⟨j, member, rfl⟩
    · exact Nat.zero_le _
    · obtain ⟨i, there⟩ := List.getElem?_of_mem member
      obtain ⟨within, -⟩ := List.getElem?_eq_some_iff.mp there
      have number := sequential i j there
      omega
  · intro within
    cases table with
    | zero => exact .inl rfl
    | succ i => exact .inr ⟨_, List.getElem_mem within, sequential i _ (List.getElem?_eq_getElem within)⟩

variable (earlier : ∀ j ∈ plan.entries, j.source < j.table)

include earlier

theorem hasTable_source (member : j ∈ plan.entries) : plan.HasTable j.source := by
  have own := (IsSequential.hasTable_iff sequential).mp (.inr ⟨j, member, rfl⟩)
  have before := earlier j member
  exact (IsSequential.hasTable_iff sequential).mpr (by omega)

/-- An entry starts from the root's table, or from that of an entry that was added before it. -/
theorem exists_earlier {i : Nat} (there : plan.entries[i]? = some j) :
    j.source = 0 ∨ ∃ k ∈ plan.entries.take i, k.table = j.source := by
  have member := List.mem_of_getElem? there
  rcases hasTable_source sequential earlier member with root | ⟨k, inside, same⟩
  · exact .inl root
  · obtain ⟨n, found⟩ := List.getElem?_of_mem inside
    have before := earlier j member
    have number := sequential n k found
    have own := sequential i j there
    have less : n < i := by omega
    refine .inr ⟨k, ?_, same⟩
    apply List.mem_of_getElem?
    rwa [List.getElem?_take_of_lt less]

end Numbers

section Tracing

theorem Traces.unique (first : plan.Traces table way) (second : plan.Traces table other) : way = other := by
  induction first generalizing other with
  | stop none =>
      cases second with
      | stop => rfl
      | back found => simp [none] at found
  | back found before ih =>
      cases second with
      | stop none => simp [found] at none
      | back again others =>
          rw [found, Option.some.injEq] at again
          subst again
          rw [ih others]

/-- The last entry of what is found is that of the table. -/
theorem Traces.getLast? (traces : plan.Traces table way) : way.getLast? = plan.ofTable? table := by
  cases traces with
  | stop none => exact none.symm
  | back found before => rw [List.getLast?_concat, found]

theorem Traces.members (traces : plan.Traces table way) : ∀ j ∈ way, j ∈ plan.entries := by
  induction traces with
  | stop => simp
  | back found before ih => simpa [or_imp, forall_and] using ⟨ih, (ofTable?_eq_some found).1⟩

variable (earlier : ∀ j ∈ plan.entries, j.source < j.table)

include earlier

/-- Going back comes to an end, since each table that is come to is less than the one before. -/
theorem exists_traces (table : Nat) : ∃ way, plan.Traces table way := by
  induction table using Nat.strong_induction_on with
  | _ table ih =>
      cases found : plan.ofTable? table with
      | none => exact ⟨[], .stop found⟩
      | some j =>
          obtain ⟨member, same⟩ := ofTable?_eq_some found
          obtain ⟨way, before⟩ := ih j.source (same ▸ earlier j member)
          exact ⟨way ++ [j], .back found before⟩

variable (sequential : plan.IsSequential)

include sequential

theorem Traces.isWay (traces : plan.Traces table way) : plan.IsWay table way := by
  have last := traces.getLast?
  refine ⟨traces.members, ?_, ?_, fun j final => ?_, ?_⟩
  · induction traces with
    | stop => simp
    | @back table way j found before ih =>
        intro k first
        cases way with
        | cons => exact ih before.getLast? k first
        | nil =>
            -- Nothing leads to where the first entry starts, which can only be the root.
            obtain rfl : j = k := by simpa using first
            have none := ofTable?_eq_none_iff.mp before.getLast?.symm
            rcases hasTable_source sequential earlier (ofTable?_eq_some found).1 with root | ⟨k, member, same⟩
            · exact root
            · exact absurd same (none k member)
  · induction traces with
    | stop => exact .nil
    | back found before ih =>
        refine (ih before.getLast?).append (.singleton _) fun k final j single => ?_
        rw [List.head?_cons, Option.mem_some_iff] at single
        rw [before.getLast?] at final
        exact single ▸ (ofTable?_eq_some final).2.symm
  · exact (ofTable?_eq_some (last ▸ final)).2
  · rw [← ofTable?_eq_none_iff, ← last, List.getLast?_eq_none_iff]

/-- Entries that come after the one of a table have no part in the joins that lead to it. -/
theorem Traces.chainOnto (traces : plan.Traces table way) (joins : List Sql.Join) {bound : Nat}
    (short : bound ≤ plan.entries.length) (within : table ≤ bound ∨ plan.entries.length < table) :
    chainOnto joins table (plan.entries.take bound).reverse = way.map (·.join) ++ joins := by
  induction bound generalizing table way joins with
  | zero =>
      cases traces with
      | stop => rfl
      | back found =>
          obtain ⟨member, rfl⟩ := ofTable?_eq_some found
          have before := earlier _ member
          have has := (IsSequential.hasTable_iff sequential).mp (.inr ⟨_, member, rfl⟩)
          omega
  | succ bound ih =>
      have there : plan.entries[bound]? = some plan.entries[bound] := List.getElem?_eq_getElem short
      have number := sequential bound _ there
      rw [List.take_add_one, there, Option.toList_some, List.reverse_append, List.reverse_singleton,
        List.singleton_append, JoinPlan.chainOnto]
      split
      next here =>
        cases traces with
        | stop none => exact absurd here (ofTable?_eq_none_iff.mp none _ (List.getElem_mem short))
        | back found traced =>
            obtain ⟨member, same⟩ := ofTable?_eq_some found
            obtain rfl := IsSequential.eq_of_table sequential (List.getElem_mem short) member (here.trans same.symm)
            have before := earlier _ member
            rw [ih traced _ (by omega) (by omega)]
            simp
      next elsewhere => exact ih traces joins (by omega) (by omega)

/-- The joins that lead to a table are those that are found by going back from it. -/
theorem Traces.chainTo (traces : plan.Traces table way) : plan.chainTo table = way.map (·.join) := by
  have chain := traces.chainOnto earlier sequential [] (Nat.le_refl _) (by omega)
  rwa [List.take_length, List.append_nil] at chain

end Tracing

end ViewEngine.JoinPlan
