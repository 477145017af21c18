import Mathlib.Data.List.Sort
import Mathlib.Data.String.Basic
import ViewEngine.Keyed

namespace ViewEngine

namespace Keyed

variable {α : Type} {entries : Keyed α} {key other : String} {value : α}

theorem mem_values_of_get? (found : entries.get? key = some value) : value ∈ entries.values := by
  induction entries with
  | nil => contradiction
  | cons entry rest ih =>
      obtain ⟨other, held⟩ := entry
      rw [get?] at found
      split at found
      · cases found
        exact List.mem_cons_self ..
      · exact List.mem_cons_of_mem _ (ih found)

theorem mem_values_insert {new : α} (member : value ∈ (insert key new entries).values) :
    value = new ∨ value ∈ entries.values := by
  induction entries with
  | nil => exact .inl (List.mem_singleton.mp member)
  | cons entry rest ih =>
      obtain ⟨other, held⟩ := entry
      rw [insert] at member
      split at member
      · rcases List.mem_cons.mp member with same | later
        · exact .inl same
        · exact .inr (List.mem_cons_of_mem _ later)
      · split at member
        · rcases List.mem_cons.mp member with same | later
          · exact .inl same
          · exact .inr later
        · rcases List.mem_cons.mp member with same | later
          · exact .inr (same ▸ List.mem_cons_self ..)
          · exact (ih later).imp_right (List.mem_cons_of_mem _)

theorem get?_ofList {entries : List (String × α)} (member : (key, value) ∈ entries)
    (only : ∀ other, (key, other) ∈ entries → other = value) : (ofList entries).get? key = some value := by
  suffices ∀ built : Keyed α, ((key, value) ∈ entries ∨ built.get? key = some value) →
      Keyed.get? (entries.foldl (fun built entry => insert entry.1 entry.2 built) built) key = some value from
    this [] (.inl member)
  clear member
  induction entries with
  | nil => exact fun built held => held.resolve_left List.not_mem_nil
  | cons entry rest ih =>
      intro built held
      refine ih (fun other later => only other (List.mem_cons_of_mem _ later)) _ ?_
      by_cases own : entry.1 = key
      · subst own
        obtain rfl := only entry.2 (List.mem_cons_self ..)
        exact .inr (get?_insert_self ..)
      · rw [get?_insert_of_ne (Ne.symm own)]
        have other : (key, value) ≠ entry := fun same => own (congrArg Prod.fst same.symm)
        exact held.imp_left fun member => (List.mem_cons.mp member).resolve_left other

theorem insert_insert (key : String) (first second : α) (entries : Keyed α) :
    insert key second (insert key first entries) = insert key second entries := by
  induction entries with
  | nil => simp [insert]
  | cons entry rest ih =>
      by_cases same : key = entry.1
      · simp [insert, same]
      · by_cases before : key < entry.1
        · simp [insert, same, before]
        · simp [insert, same, before, ih]

theorem insert_comm_of_lt (less : key < other) (first second : α) (entries : Keyed α) :
    insert key first (insert other second entries) = insert other second (insert key first entries) := by
  have different := less.ne
  induction entries with
  | nil => simp [insert, different, different.symm, less, less.not_gt]
  | cons entry rest ih =>
      rcases lt_trichotomy key entry.1 with before | same | after
      · by_cases there : other = entry.1
        · simp [insert, there, before, before.ne, before.not_gt, before.ne']
        · by_cases front : other < entry.1
          · simp [insert, there, front, before, before.ne, less, less.ne, less.not_gt, less.ne']
          · simp [insert, there, front, before, before.ne, less.not_gt, less.ne']
      · have further : ¬ other = entry.1 := same ▸ different.symm
        have behind : ¬ other < entry.1 := same ▸ less.not_gt
        simp [insert, same, further, behind]
      · have further := after.trans less
        simp [insert, after.ne', after.not_gt, further.ne', further.not_gt, ih]

theorem insert_comm (different : key ≠ other) (first second : α) (entries : Keyed α) :
    insert key first (insert other second entries) = insert other second (insert key first entries) := by
  rcases lt_or_gt_of_ne different with before | after
  · exact insert_comm_of_lt before first second entries
  · exact (insert_comm_of_lt after second first entries).symm

theorem get?_erase_of_ne {entries : Keyed α} (different : other ≠ key) :
    (erase key entries).get? other = entries.get? other := by
  induction entries with
  | nil => rfl
  | cons entry rest ih =>
      obtain ⟨name, value⟩ := entry
      unfold erase
      split
      next same => rw [get?, if_neg (same ▸ Ne.symm different)]
      next => rw [get?, get?, ih]

def IsAscending (entries : Keyed α) : Prop :=
  entries.keys.Pairwise (· < ·)

theorem mem_keys_insert : other ∈ (insert key value entries).keys ↔ other = key ∨ other ∈ entries.keys := by
  induction entries with
  | nil => simp [insert, keys]
  | cons entry rest ih =>
      unfold insert
      split
      next same => simp [keys, ← same]
      next =>
        split
        · simp [keys]
        · simp only [keys, List.map_cons, List.mem_cons] at ih ⊢
          rw [ih, or_left_comm]

theorem IsAscending.insert (ascending : entries.IsAscending) (key : String) (value : α) :
    (insert key value entries).IsAscending := by
  induction entries with
  | nil => exact List.pairwise_singleton ..
  | cons entry rest ih =>
      obtain ⟨first, later⟩ := List.pairwise_cons.mp ascending
      unfold Keyed.insert
      split
      next same => exact List.pairwise_cons.mpr ⟨same ▸ first, later⟩
      next different =>
        split
        next before =>
          refine List.pairwise_cons.mpr ⟨fun other member => ?_, ascending⟩
          rcases List.mem_cons.mp member with rfl | member
          · exact before
          · exact before.trans (first other member)
        next behind =>
          refine List.pairwise_cons.mpr ⟨fun other member => ?_, ih later⟩
          rcases mem_keys_insert.mp member with rfl | member
          · exact lt_of_le_of_ne (not_lt.mp behind) (Ne.symm different)
          · exact first other member

theorem mem_of_get? (found : entries.get? key = some value) : (key, value) ∈ entries := by
  induction entries with
  | nil => contradiction
  | cons entry rest ih =>
      obtain ⟨other, held⟩ := entry
      rw [get?] at found
      split at found
      next same =>
        cases found
        exact same ▸ List.mem_cons_self ..
      next => exact List.mem_cons_of_mem _ (ih found)

theorem IsAscending.get?_of_mem (ascending : entries.IsAscending) (member : (key, value) ∈ entries) :
    entries.get? key = some value := by
  induction entries with
  | nil => contradiction
  | cons entry rest ih =>
      obtain ⟨first, later⟩ := List.pairwise_cons.mp ascending
      obtain ⟨other, held⟩ := entry
      unfold get?
      rcases List.mem_cons.mp member with same | member
      · cases same
        exact if_pos rfl
      · rw [if_neg (first key (List.mem_map_of_mem member)).ne]
        exact ih later member

theorem IsAscending.get?_eq_some_iff (ascending : entries.IsAscending) :
    entries.get? key = some value ↔ (key, value) ∈ entries :=
  ⟨mem_of_get?, ascending.get?_of_mem⟩

/-- Two maps in which the same is found are the same. -/
theorem IsAscending.ext {others : Keyed α} (first : entries.IsAscending) (second : others.IsAscending)
    (same : ∀ key, entries.get? key = others.get? key) : entries = others := by
  let before : String × α → String × α → Prop := fun a b => a.1 < b.1
  have : Std.Irrefl before := ⟨fun a => lt_irrefl a.1⟩
  have : Std.Antisymm before := ⟨fun a b less greater => absurd greater (not_lt_of_gt less)⟩
  refine List.Pairwise.eq_of_mem_iff (r := before) (List.pairwise_map.mp first) (List.pairwise_map.mp second) ?_
  rintro ⟨key, value⟩
  rw [← first.get?_eq_some_iff, ← second.get?_eq_some_iff, same key]

theorem get?_eq_none (absent : key ∉ entries.keys) : entries.get? key = none := by
  induction entries with
  | nil => rfl
  | cons entry rest ih =>
      obtain ⟨name, value⟩ := entry
      obtain ⟨different, absent⟩ := not_or.mp (List.mem_cons.not.mp absent)
      rw [get?, if_neg (Ne.symm different)]
      exact ih absent

theorem IsAscending.get?_erase_self (ascending : entries.IsAscending) : (erase key entries).get? key = none := by
  induction entries with
  | nil => rfl
  | cons entry rest ih =>
      obtain ⟨name, value⟩ := entry
      obtain ⟨first, later⟩ := List.pairwise_cons.mp ascending
      unfold erase
      split
      next same => exact get?_eq_none fun member => (first key member).ne same
      next different => rw [get?, if_neg different, ih later]

theorem IsAscending.insert_of_get? (ascending : entries.IsAscending) (found : entries.get? key = some value) :
    Keyed.insert key value entries = entries := by
  induction entries with
  | nil => contradiction
  | cons entry rest ih =>
      obtain ⟨other, held⟩ := entry
      obtain ⟨first, later⟩ := List.pairwise_cons.mp ascending
      rw [get?] at found
      unfold Keyed.insert
      split at found
      next same =>
        cases found
        rw [if_pos same.symm, same]
      next different =>
        have behind : other < key := first key (List.mem_map_of_mem (mem_of_get? found))
        rw [if_neg behind.ne', if_neg behind.asymm, ih later found]

theorem erase_sublist (key : String) (entries : Keyed α) : (erase key entries).Sublist entries := by
  induction entries with
  | nil => exact .slnil
  | cons entry rest ih =>
      obtain ⟨name, value⟩ := entry
      unfold erase
      split
      · exact List.sublist_cons_self ..
      · exact ih.cons_cons _

theorem IsAscending.erase (ascending : entries.IsAscending) (key : String) : (Keyed.erase key entries).IsAscending :=
  List.Pairwise.sublist ((erase_sublist key entries).map Prod.fst) ascending

end Keyed

end ViewEngine
