import Mathlib.Data.Multiset.Bind
import ViewEngine.Proofs.Counting.Groups

/-!
A joined table that nothing else in a statement rests on. It can as well be joined last, and then each row of the
statement without it is extended by the rows that fit.
-/

namespace ViewEngine

open Sql

theorem filter_flatMap_same {α β : Type} {extended : α → List β} {asked : β → Bool} {before : α → Bool}
    (same : ∀ a, ∀ b ∈ extended a, asked b = before a) (l : List α) :
    (l.flatMap extended).filter asked = (l.filter before).flatMap extended := by
  induction l with
  | nil => rfl
  | cons a rest ih =>
      rw [List.flatMap_cons, List.filter_append, ih, List.filter_congr (same a), List.filter_cons]
      cases before a with
      | false => rw [List.filter_false, List.nil_append, if_neg Bool.false_ne_true]
      | true => rw [List.filter_true, if_pos rfl, List.flatMap_cons]

section Binding

variable {f g : Frame} {reference : TableReference} {record : Record} {table n : Nat} {tables : List Nat}

theorem Frame.bind_rows_self (number : reference.number = some table) (f : Frame) (record : Record) :
    (f.bind reference record).rows table = record := by
  rw [bind, number]
  exact Function.update_self ..

theorem Frame.bind_rows_of_ne (number : reference.number = some table) (other : n ≠ table) (f : Frame)
    (record : Record) : (f.bind reference record).rows n = f.rows n := by
  rw [bind, number]
  exact Function.update_of_ne other ..

theorem Frame.agreeOn_bind (number : reference.number = some table) (absent : table ∉ tables) (f : Frame)
    (record : Record) : (f.bind reference record).AgreeOn tables f := by
  refine ⟨fun n member => bind_rows_of_ne number (fun same => absent (same ▸ member)) f record, ?_, ?_⟩ <;>
    rw [bind, number]

theorem Frame.AgreeOn.trans {h : Frame} (first : f.AgreeOn tables g) (second : g.AgreeOn tables h) :
    f.AgreeOn tables h :=
  ⟨fun n member => (first.rows n member).trans (second.rows n member), first.own.trans second.own,
    first.parameters.trans second.parameters⟩

theorem Frame.bind_comm {other : TableReference} (number : reference.number = some table)
    (otherNumber : other.number = some n) (apart : table ≠ n) (f : Frame) (first second : Record) :
    (f.bind reference first).bind other second = (f.bind other second).bind reference first := by
  simp only [Frame.bind, number, otherNumber, Function.update_comm apart]

end Binding

namespace Sql

variable (c : Collation) (db : Database)

namespace Join

/-- The rows of the joined table that fit. -/
def fitting (join : Join) (frame : Frame) : List Record :=
  (db join.table.table).rows.filter fun record => join.condition.holds c (frame.bind join.table record)

def partners (join : Join) (frame : Frame) : List Record :=
  let found := join.fitting c db frame
  match join.kind with
  | .inner => found
  | .leftOuter => if found.isEmpty then [Record.missing] else found

theorem extend_eq (join : Join) (frame : Frame) :
    join.extend c db frame = (join.partners c db frame).map (frame.bind join.table) := by
  have matched : join.matching c db frame = (join.fitting c db frame).map (frame.bind join.table) :=
    List.filter_map ..
  unfold extend partners
  rw [matched]
  cases join.kind with
  | inner => rfl
  | leftOuter => cases join.fitting c db frame <;> rfl

variable {c db} {join other : Join} {table n : Nat} {f g : Frame}

theorem fitting_congr (number : join.table.number = some table)
    (agree : f.AgreeOn (join.condition.tables.filter (· ≠ table)) g) : join.fitting c db f = join.fitting c db g := by
  refine List.filter_congr fun record _ => Expr.holds_congr ⟨fun n mentioned => ?_, ?_, ?_⟩
  · by_cases own : n = table
    · rw [own, Frame.bind_rows_self number, Frame.bind_rows_self number]
    · rw [Frame.bind_rows_of_ne number own, Frame.bind_rows_of_ne number own]
      exact agree.rows n (List.mem_filter.mpr ⟨mentioned, decide_eq_true own⟩)
  · simpa only [Frame.bind, number] using agree.own
  · simpa only [Frame.bind, number] using agree.parameters

theorem partners_congr (same : join.fitting c db f = join.fitting c db g) :
    join.partners c db f = join.partners c db g := by
  rw [partners, partners, same]

structure Apart (a b : Join) : Prop where
  numbers : ∃ m n, a.table.number = some m ∧ b.table.number = some n ∧ m ≠ n ∧ m ∉ b.condition.tables ∧
    n ∉ a.condition.tables

theorem Apart.symm (apart : join.Apart other) : other.Apart join := by
  obtain ⟨m, n, first, second, different, one, two⟩ := apart.numbers
  exact ⟨n, m, second, first, different.symm, two, one⟩

theorem Apart.partners_bind (apart : join.Apart other) (f : Frame) (record : Record) :
    other.partners c db (f.bind join.table record) = other.partners c db f := by
  obtain ⟨m, n, number, otherNumber, -, absent, -⟩ := apart.numbers
  refine partners_congr (fitting_congr otherNumber (Frame.agreeOn_bind number (fun member => ?_) f record))
  exact absent (List.mem_filter.mp member).1

theorem Apart.swap (apart : join.Apart other) (f : Frame) :
    ((join.extend c db f).flatMap (other.extend c db)).Perm ((other.extend c db f).flatMap (join.extend c db)) := by
  obtain ⟨m, n, number, otherNumber, different, -⟩ := apart.numbers
  simp only [extend_eq, List.flatMap_map, apart.partners_bind, apart.symm.partners_bind]
  rw [← Multiset.coe_eq_coe, ← Multiset.coe_bind, ← Multiset.coe_bind]
  simp only [← Multiset.map_coe]
  rw [Multiset.bind_map_comm]
  simp only [Frame.bind_comm number otherNumber different]

theorem countP_extend (number : join.table.number = some table) (key : String) (f : Frame) :
    (join.extend c db f).countP (fun g => !(g.rows table key).isNull) =
      (join.fitting c db f).countP fun record => !(record key).isNull := by
  rw [extend_eq, List.countP_map]
  have bound : ((fun g : Frame => !(g.rows table key).isNull) ∘ f.bind join.table) =
      fun record => !(record key).isNull := by
    funext record
    rw [Function.comp_apply, Frame.bind_rows_self number]
  rw [bound, partners]
  cases join.kind with
  | inner => rfl
  | leftOuter => cases join.fitting c db f <;> rfl

theorem filter_flatMap_extend {asked : Frame → Bool} (same : ∀ f record, asked (f.bind join.table record) = asked f)
    (found : List Frame) :
    (found.flatMap (join.extend c db)).filter asked = (found.filter asked).flatMap (join.extend c db) := by
  refine filter_flatMap_same (fun f g extended => ?_) found
  rw [extend_eq] at extended
  obtain ⟨record, -, rfl⟩ := List.mem_map.mp extended
  exact same f record

end Join

namespace Statement

variable {c db} {s : Statement} {join : Join} {joins rest : List Join} {found others : List Frame} {f g : Frame}
  {table : Nat} {parameters : String → Value}

theorem joined_append (joins rest : List Join) (found : List Frame) :
    joined c db (joins ++ rest) found = joined c db rest (joined c db joins found) :=
  List.foldl_append ..

theorem joined_perm (joins : List Join) (same : found.Perm others) :
    (joined c db joins found).Perm (joined c db joins others) := by
  induction joins generalizing found others with
  | nil => exact same
  | cons join rest ih => exact ih (same.flatMap_right _)

theorem joined_last (apart : ∀ other ∈ rest, join.Apart other) (found : List Frame) :
    (joined c db (join :: rest) found).Perm ((joined c db rest found).flatMap (join.extend c db)) := by
  induction rest generalizing found with
  | nil => exact .refl _
  | cons other rest ih =>
      obtain ⟨first, later⟩ := List.forall_mem_cons.mp apart
      have swapped : ((found.flatMap (join.extend c db)).flatMap (other.extend c db)).Perm
          ((found.flatMap (other.extend c db)).flatMap (join.extend c db)) := by
        rw [List.flatMap_assoc, List.flatMap_assoc]
        exact List.Perm.flatMap_left _ fun f _ => first.swap f
      exact (joined_perm rest swapped).trans (ih later (found.flatMap (other.extend c db)))

/-- The statement without a joined table. -/
def withoutTable (s : Statement) (table : Nat) : Statement :=
  { s with joins := s.joins.filter (·.table.number != some table) }

structure IsLoose (s : Statement) (join : Join) (table : Nat) : Prop where
  number : join.table.number = some table
  joins : ∃ before after, s.joins = before ++ join :: after ∧ (∀ other ∈ before, other.table.number ≠ some table) ∧
    ∀ other ∈ after, join.Apart other
  conditions : table ∉ s.conditions.flatMap (·.tables)
  grouping : table ∉ s.grouping.flatMap (·.tables)

theorem IsLoose.frames_perm (loose : s.IsLoose join table) :
    (s.frames c db parameters).Perm
      (((s.withoutTable table).frames c db parameters).flatMap (join.extend c db)) := by
  obtain ⟨before, after, joins, numbers, apart⟩ := loose.joins
  have left : (s.withoutTable table).joins = before ++ after := by
    have own : (join.table.number != some table) = false := by rw [loose.number, bne_self_eq_false]
    rw [withoutTable, joins, List.filter_append, List.filter_cons, own, if_neg Bool.false_ne_true]
    rw [List.filter_eq_self.mpr fun other member => bne_iff_ne.mpr (numbers other member),
      List.filter_eq_self.mpr fun other member => ?_]
    obtain ⟨m, n, number, otherNumber, different, -⟩ := (apart other member).numbers
    obtain rfl : m = table := Option.some.inj (number.symm.trans loose.number)
    rw [otherNumber]
    exact bne_iff_ne.mpr fun same => different (Option.some.inj same).symm
  have last (found : List Frame) : (joined c db (join :: after) found).Perm _ := joined_last apart found
  rw [frames, frames, left, joins, joined_append, joined_append]
  refine ((last _).filter _).trans (List.Perm.of_eq (Join.filter_flatMap_extend (fun f record => ?_) _))
  exact admits_congr (Frame.agreeOn_bind loose.number loose.conditions f record)

/-- In a group, the rows of a loose table are counted for each row that the group has without it. -/
theorem IsLoose.countIn_group (loose : s.IsLoose join table) (key : String) (f : Frame) :
    (Expr.wholeRow table key).countIn c (s.groupOf c db parameters f) =
      (((s.withoutTable table).groupOf c db parameters f).flatMap (join.fitting c db)).countP
        fun record => !(record key).isNull := by
  have perm : (s.frames c db parameters).Perm _ := loose.frames_perm
  have grouped := (perm.filter (s.alike c f)).countP_eq fun g => !(g.rows table key).isNull
  rw [Join.filter_flatMap_extend fun g record =>
    alike_congr f (Frame.agreeOn_bind loose.number loose.grouping g record)] at grouped
  refine grouped.trans ?_
  rw [List.countP_flatMap, List.countP_flatMap]
  exact congrArg List.sum (List.map_congr_left fun g _ => Join.countP_extend loose.number key g)

theorem exists_of_mem_joined (numbers : ∀ join ∈ joins, join.table.number ≠ none ∧ join.table.number ≠ some table)
    (member : g ∈ joined c db joins found) : ∃ f ∈ found, g.AgreeOn [table] f := by
  induction joins generalizing found with
  | nil => exact ⟨g, member, fun _ _ => rfl, rfl, rfl⟩
  | cons join rest ih =>
      obtain ⟨⟨numbered, other⟩, later⟩ := List.forall_mem_cons.mp numbers
      obtain ⟨n, number⟩ := Option.ne_none_iff_exists'.mp numbered
      obtain ⟨h, extended, agree⟩ := ih later member
      obtain ⟨f, among, extended⟩ := List.mem_flatMap.mp extended
      rw [Join.extend_eq] at extended
      obtain ⟨record, -, rfl⟩ := List.mem_map.mp extended
      have kept : (f.bind join.table record).AgreeOn [table] f :=
        Frame.agreeOn_bind number (fun own => other (number.trans (congrArg some (List.mem_singleton.mp own)))) f record
      exact ⟨f, among, agree.trans kept⟩

def beginning (name : String) (table : Nat) (parameters : String → Value) (record : Record) : Frame :=
  (Frame.ofParameters parameters).bind ⟨name, some table⟩ record

theorem crossed_eq {name : String} (tables : s.tables = [⟨name, some table⟩]) :
    s.crossed db (.ofParameters parameters) = (db name).rows.map (beginning name table parameters) := by
  rw [crossed, tables, List.foldl_cons, List.foldl_nil, List.flatMap_singleton]
  rfl

theorem agreeOn_of_mem_frames {name : String} (tables : s.tables = [⟨name, some table⟩])
    (numbers : ∀ join ∈ s.joins, join.table.number ≠ none ∧ join.table.number ≠ some table)
    (member : f ∈ s.frames c db parameters) :
    f.rows table ∈ (db name).rows ∧ f.AgreeOn [table] (beginning name table parameters (f.rows table)) := by
  obtain ⟨g, among, agree⟩ := exists_of_mem_joined numbers (List.mem_filter.mp member).1
  rw [crossed_eq tables] at among
  obtain ⟨record, stored, rfl⟩ := List.mem_map.mp among
  have same : f.rows table = record :=
    (agree.rows table (List.mem_singleton_self table)).trans (Frame.bind_rows_self rfl _ _)
  rw [same]
  exact ⟨stored, agree⟩

theorem joined_eq_flatMap (joins : List Join) (found : List Frame) :
    joined c db joins found = found.flatMap fun f => joined c db joins [f] := by
  induction joins generalizing found with
  | nil => exact (List.flatMap_singleton' found).symm
  | cons join rest ih =>
      have each (f : Frame) : joined c db (join :: rest) [f] =
          (join.extend c db f).flatMap fun g => joined c db rest [g] := by
        rw [← ih, joined, List.foldl_cons, List.flatMap_singleton]
        rfl
      simp only [each]
      rw [← List.flatMap_assoc, ← ih]
      rfl

theorem length_joined (apart : joins.Pairwise Join.Apart) (f : Frame) : (joined c db joins [f]).length =
    (joins.map fun join => (join.partners c db f).length).prod := by
  induction joins generalizing f with
  | nil => rfl
  | cons join rest ih =>
      obtain ⟨first, later⟩ := List.pairwise_cons.mp apart
      have each : ∀ record ∈ join.partners c db f, (joined c db rest [f.bind join.table record]).length =
          (rest.map fun other => (other.partners c db f).length).prod := by
        intro record _
        rw [ih later]
        refine congrArg List.prod (List.map_congr_left fun other member => ?_)
        rw [(first other member).partners_bind]
      have begun : joined c db (join :: rest) [f] = joined c db rest (join.extend c db f) := by
        rw [joined, List.foldl_cons, List.flatMap_singleton]
        rfl
      rw [begun, joined_eq_flatMap, List.length_flatMap, Join.extend_eq, List.map_map, List.map_cons, List.prod_cons]
      refine (congrArg List.sum (List.map_congr_left each)).trans ?_
      rw [List.map_const', List.sum_replicate_nat]

/-- Where conditions and grouping are about the first table alone, the rows of a group are what the joins make of one
row of it. -/
theorem length_groupOf {name : String} {record : Record} (tables : s.tables = [⟨name, some table⟩])
    (numbers : ∀ join ∈ s.joins, join.table.number ≠ none ∧ join.table.number ≠ some table)
    (apart : s.joins.Pairwise Join.Apart) (conditions : ∀ n ∈ s.conditions.flatMap (·.tables), n = table)
    (grouping : ∀ n ∈ s.grouping.flatMap (·.tables), n = table) (distinct : (db name).rows.Nodup)
    (stored : record ∈ (db name).rows) (admitted : s.admits c (beginning name table parameters record) = true)
    (alike : ∀ other ∈ (db name).rows,
      s.alike c f (beginning name table parameters other) = true ↔ other = record) :
    (s.groupOf c db parameters f).length =
      (s.joins.map fun join => (join.partners c db (beginning name table parameters record)).length).prod := by
  let asked (g : Frame) : Bool := s.alike c f g && s.admits c g
  have same (h : Frame) : ∀ g ∈ joined c db s.joins [h], asked g = asked h := by
    intro g member
    obtain ⟨first, begun, agree⟩ := exists_of_mem_joined numbers member
    obtain rfl := List.mem_singleton.mp begun
    have sameGroup : s.alike c f g = s.alike c f first :=
      alike_congr f (agree.mono fun n mentioned => List.mem_singleton.mpr (grouping n mentioned))
    have sameConditions : s.admits c g = s.admits c first :=
      admits_congr (agree.mono fun n mentioned => List.mem_singleton.mpr (conditions n mentioned))
    simp only [asked, sameGroup, sameConditions]
  have one : ((db name).rows.map (beginning name table parameters)).filter asked =
      [beginning name table parameters record] := by
    rw [List.filter_map]
    refine congrArg (List.map _) (List.perm_singleton.mp ?_)
    refine (List.perm_ext_iff_of_nodup (distinct.filter _) (List.nodup_singleton record)).mpr fun other => ?_
    rw [List.mem_filter, List.mem_singleton, Function.comp_apply, Bool.and_eq_true]
    constructor
    · rintro ⟨member, isAlike, -⟩
      exact (alike other member).mp isAlike
    · rintro rfl
      exact ⟨stored, (alike other stored).mpr rfl, admitted⟩
  rw [groupOf, frames, List.filter_filter, crossed_eq tables, joined_eq_flatMap, filter_flatMap_same same, one,
    List.flatMap_singleton, length_joined apart]

end Statement

end Sql

end ViewEngine
