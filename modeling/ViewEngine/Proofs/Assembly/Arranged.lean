import ViewEngine.Proofs.Assembly.Merged

namespace ViewEngine

open Compile Row CompiledView

namespace Compile

variable {registry : Registry} {setting : Setting} {roots : List Entity} {s t : SubSelect} {found : List SubSelect}
  {shorter longer : List EnclosingCollection} {outer : EnclosingCollection}

theorem pairwise_of_splits {α : Type} {R : α → α → Prop} {items : List α}
    (each : ∀ front item back, items = front ++ item :: back → ∀ other ∈ back, R item other) : items.Pairwise R := by
  induction items with
  | nil => exact .nil
  | cons first rest ih =>
      refine .cons (each [] first rest rfl) (ih fun front item back split => each (first :: front) item back ?_)
      rw [split, List.cons_append]

theorem IsServed.shorter_eq (served : IsServed registry roots s) (inner : IsServed registry roots t)
    (through : t.enclosing = shorter ++ outer :: longer) (own : outer.path = s.path) : shorter = s.enclosing := by
  obtain ⟨target, along⟩ := served
  obtain ⟨keys, onWay⟩ := inner.areOnWay
  obtain ⟨_, again, -⟩ := onWay shorter outer (longer ++ [⟨t.path, keys⟩]) (by rw [through]; simp)
  rw [own] at again
  exact (List.append_inj' (again.unique along).2 rfl).1

theorem IsServed.apart_root (first : IsServed registry roots s) (second : IsServed registry roots t)
    (outermost : s.enclosing = []) (alike : t.enclosing = []) (different : s.path ≠ t.path) :
    Apart (propertiesOf s.path) (propertiesOf t.path) := by
  obtain ⟨keys, onWay⟩ := first.areOnWay
  obtain ⟨otherKeys, otherWay⟩ := second.areOnWay
  rw [outermost] at onWay
  rw [alike] at otherWay
  exact onWay.apart otherWay different

theorem IsServed.apart_inner {u : SubSelect} (served : IsServed registry roots u) (first : IsServed registry roots s)
    (second : IsServed registry roots t) (inner : s.enclosing.getLast?.any (·.path == u.path) = true)
    (alike : t.enclosing.getLast?.any (·.path == u.path) = true) (different : s.path ≠ t.path) :
    Apart (propertiesBelow s.path u.path) (propertiesBelow t.path u.path) := by
  obtain ⟨x, last, isX⟩ := (Option.any_eq_true ..).mp inner
  obtain ⟨y, lastOther, isY⟩ := (Option.any_eq_true ..).mp alike
  rw [beq_iff_eq] at isX isY
  obtain ⟨front, ends⟩ := List.getLast?_eq_some_iff.mp last
  obtain ⟨frontOther, endsOther⟩ := List.getLast?_eq_some_iff.mp lastOther
  obtain ⟨keys, onWay⟩ := first.areOnWay
  obtain ⟨otherKeys, otherWay⟩ := second.areOnWay
  rw [ends, served.shorter_eq first ends isX] at onWay
  rw [endsOther, served.shorter_eq second endsOther isY] at otherWay
  have same : x = y := by
    rw [List.append_assoc] at onWay otherWay
    exact onWay.eq_of_path otherWay (isX.trans isY.symm)
  subst same
  have apart := AreOnWay.apart onWay otherWay different
  rwa [lastPath_concat, isX] at apart

variable (served : AreServed registry roots [] 0 found)
include served

theorem AreServed.enclosing_mem {front back : List SubSelect} (split : found = front ++ s :: back)
    {path : String} (around : path ∈ s.enclosing.map (·.path)) : path ∈ front.map (·.path) := by
  obtain ⟨outer, inside, rfl⟩ := List.mem_map.mp around
  obtain ⟨shorter, longer, through⟩ := List.append_of_mem inside
  obtain ⟨u, member, isPath, -⟩ := served.enclosed front s back split shorter outer longer through
  exact List.mem_map.mpr ⟨u, member, isPath⟩

theorem AreServed.next (member : s ∈ found) (through : s.enclosing = shorter ++ longer) :
    ∃ u ∈ found, u.enclosing = shorter ∧ u.path = nextPath longer s.path := by
  cases longer with
  | nil => exact ⟨s, member, by rw [through, List.append_nil], rfl⟩
  | cons outer longer =>
      obtain ⟨front, back, split⟩ := List.append_of_mem member
      obtain ⟨u, inside, isPath, around⟩ := served.enclosed front s back split shorter outer longer through
      exact ⟨u, split ▸ List.mem_append_left _ inside, around, isPath⟩

end Compile

namespace CompiledView

variable {v : CompiledView} {setting : Setting} {roots : List Entity}

theorem isArranged_of_served (isKeyed : setting.IsKeyed roots)
    (served : AreServed setting.registry roots [] 0 v.subSelects) : v.IsArranged := by
  have each {s : SubSelect} (member : s ∈ v.subSelects) : IsServed setting.registry roots s := (served.served s member).1
  have distinct : (v.subSelects.map (·.path)).Nodup := List.pairwise_map.mpr served.distinct
  have fresh {front : List SubSelect} {s : SubSelect} {back : List SubSelect} (split : v.subSelects = front ++ s :: back)
      {t : SubSelect} (later : t ∈ s :: back) : t.path ∉ s.enclosing.map (·.path) := by
    intro around
    have before := served.enclosing_mem split around
    rw [split, List.map_append] at distinct
    exact (List.nodup_append.mp distinct).2.2 _ before _ (List.mem_map_of_mem later) rfl
  exact {
    distinct
    order := pairwise_of_splits fun front s back split t later => fresh split (List.mem_cons_of_mem _ later)
    outside := fun s member => by
      obtain ⟨front, back, split⟩ := List.append_of_mem member
      exact fresh split (List.mem_cons_self ..)
    parting := fun s first t second => (each first).parting (each second)
    keyed := fun s member => (each member).areKeyed isKeyed
    rootApart := by
      refine List.pairwise_map.mpr (((List.Pairwise.and_mem.mp served.distinct).filter _).imp_of_mem fun {s t} first second pair => ?_)
      have outermost := (List.mem_filter.mp first).2
      have alike := (List.mem_filter.mp second).2
      exact (each pair.1).apart_root (each pair.2.1) (List.isEmpty_iff.mp outermost) (List.isEmpty_iff.mp alike) pair.2.2
    innerApart := fun u member => by
      refine List.pairwise_map.mpr (((List.Pairwise.and_mem.mp served.distinct).filter _).imp_of_mem fun {s t} first second pair => ?_)
      exact (each member).apart_inner (each pair.1) (each pair.2.1) (List.mem_filter.mp first).2
        (List.mem_filter.mp second).2 pair.2.2
    root := fun s member => by
      obtain ⟨u, inside, outermost, isPath⟩ := served.next member (List.nil_append _).symm
      rw [← isPath]
      exact List.mem_map.mpr ⟨u, List.mem_filter.mpr ⟨inside, by rw [outermost]; rfl⟩, rfl⟩
    inner := fun s member t _ shorter outer longer through own => by
      rw [List.append_cons] at through
      obtain ⟨u, inside, around, isPath⟩ := served.next member through
      rw [← isPath]
      refine List.mem_map.mpr ⟨u, List.mem_filter.mpr ⟨inside, ?_⟩, rfl⟩
      rw [around, List.getLast?_concat, Option.any_some, own, beq_self_eq_true] }

end CompiledView

end ViewEngine
