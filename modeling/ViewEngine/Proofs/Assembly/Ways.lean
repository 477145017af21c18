import ViewEngine.Proofs.Assembly.Elements
import ViewEngine.Proofs.Assembly.Trails

namespace ViewEngine

open Compile Row

namespace Compile

def lastPath (outers : List EnclosingCollection) : String :=
  (outers.getLast?.map (·.path)).getD ""

def AreOnWay (registry : Registry) (roots : List Entity) (outers : List EnclosingCollection) : Prop :=
  ∀ shorter outer longer, outers = shorter ++ outer :: longer → ∃ target,
    Along registry roots (Path.properties outer.path) [target] (shorter ++ [outer]) ∧
      outer.keys = target.elementKeys ∧ target ∈ registry.all

variable {registry : Registry} {setting : Setting} {roots : List Entity} {s t : SubSelect}
  {outers others shorter longer further : List EnclosingCollection} {outer x y : EnclosingCollection}
  {path other above : String} {rest : List String} {keys otherKeys : List String}

theorem lastPath_concat (outers : List EnclosingCollection) (outer : EnclosingCollection) :
    lastPath (outers ++ [outer]) = outer.path := by
  rw [lastPath, List.getLast?_concat]
  rfl

theorem IsServed.areOnWay (served : IsServed registry roots s) :
    ∃ keys, AreOnWay registry roots (s.enclosing ++ [⟨s.path, keys⟩]) := by
  obtain ⟨target, along⟩ := served
  refine ⟨target.elementKeys, fun shorter outer longer through => ?_⟩
  obtain ⟨target, there, -, keys, registered⟩ := along.enclosing through
  exact ⟨target, there, keys, registered⟩

theorem propertiesBelow_of_append (same : Path.properties path = Path.properties above ++ rest) (nonempty : rest ≠ []) :
    propertiesBelow path above = rest := by
  have filled : path.isEmpty = false := by
    by_contra empty
    rw [Bool.not_eq_false] at empty
    rw [Path.properties, if_pos empty] at same
    exact nonempty (List.append_eq_nil_iff.mp same.symm).2
  rw [Path.properties, filled] at same
  obtain ⟨property, others, rfl⟩ := List.exists_cons_of_ne_nil nonempty
  unfold propertiesBelow
  by_cases root : above.isEmpty = true
  · rw [Path.properties, if_pos root] at same
    simpa [root, propertiesOf] using same
  · rw [Path.properties, if_neg root] at same
    have starts : (propertiesOf above).isPrefixOf? (propertiesOf path) = some (property :: others) :=
      List.isPrefixOf?_eq_some_iff_append_eq.mpr same.symm
    simp only [root, starts]
    rfl

/-- Each collection on a way lies properly below the one before. -/
theorem AreOnWay.below (onWay : AreOnWay registry roots (shorter ++ outer :: longer)) :
    Path.properties outer.path = Path.properties (lastPath shorter) ++ propertiesBelow outer.path (lastPath shorter) ∧
      propertiesBelow outer.path (lastPath shorter) ≠ [] := by
  obtain ⟨target, along, -⟩ := onWay shorter outer longer rfl
  suffices ∃ rest, Path.properties outer.path = Path.properties (lastPath shorter) ++ rest ∧ rest ≠ [] by
    obtain ⟨rest, same, nonempty⟩ := this
    rw [propertiesBelow_of_append same nonempty]
    exact ⟨same, nonempty⟩
  rcases List.eq_nil_or_concat' shorter with rfl | ⟨front, last, rfl⟩
  · refine ⟨Path.properties outer.path, rfl, fun none => ?_⟩
    rw [none] at along
    cases (along.unique .root).2
  · have through : front ++ [last] ++ [outer] = front ++ last :: [outer] := List.append_assoc ..
    obtain ⟨_, before, ⟨rest, same⟩, -⟩ := along.enclosing through
    rw [lastPath_concat]
    refine ⟨rest, same.symm, fun none => ?_⟩
    rw [none, List.append_nil] at same
    rw [same] at before
    have lengths := congrArg List.length (along.unique before).2
    simp at lengths

theorem AreOnWay.eq_of_path (first : AreOnWay registry roots (shorter ++ x :: longer))
    (second : AreOnWay registry roots (shorter ++ y :: further)) (same : x.path = y.path) : x = y := by
  obtain ⟨_, along, -⟩ := first shorter x longer rfl
  obtain ⟨_, again, -⟩ := second shorter y further rfl
  rw [same] at along
  exact List.singleton_inj.mp (List.append_cancel_left (along.unique again).2)

theorem AreOnWay.not_onWay (first : AreOnWay registry roots (shorter ++ x :: longer))
    (second : AreOnWay registry roots (shorter ++ y :: further)) (different : x.path ≠ y.path) :
    ¬ propertiesBelow x.path (lastPath shorter) <+: propertiesBelow y.path (lastPath shorter) := by
  intro starts
  have names : Path.properties x.path <+: Path.properties y.path := by
    rw [first.below.1, second.below.1]
    exact (List.prefix_append_right_inj _).mpr starts
  obtain ⟨_, along, -⟩ := first shorter x longer rfl
  obtain ⟨_, again, -⟩ := second shorter y further rfl
  obtain ⟨before, around, there, within⟩ := again.start names
  rw [← (along.unique there).2] at within
  have same := (List.prefix_append_right_inj _).mp within
  exact different (congrArg _ (List.singleton_inj.mp (same.eq_of_length rfl)))

/-- Of the collections that come next on two ways, neither lies on the way to the other. -/
theorem AreOnWay.apart (first : AreOnWay registry roots (shorter ++ x :: longer))
    (second : AreOnWay registry roots (shorter ++ y :: further)) (different : x.path ≠ y.path) :
    Apart (propertiesBelow x.path (lastPath shorter)) (propertiesBelow y.path (lastPath shorter)) :=
  ⟨first.not_onWay second different, second.not_onWay first different.symm⟩

/-- The ways to two collections part somewhere, or one of them ends on the other. -/
theorem AreOnWay.parting (first : AreOnWay registry roots (shorter ++ (outers ++ [⟨path, keys⟩])))
    (second : AreOnWay registry roots (shorter ++ (others ++ [⟨other, otherKeys⟩]))) :
    Parting (lastPath shorter) outers path others other := by
  induction outers generalizing shorter others with
  | nil =>
      cases others with
      | nil =>
          by_cases same : path = other
          · subst same
            exact .same
          · have apart := first.apart second same
            exact .apart apart
      | cons y others =>
          by_cases same : path = y.path
          · subst same
            exact .inside
          · have apart := first.apart second same
            exact .apart apart
  | cons x outers ih =>
      cases others with
      | nil =>
          by_cases same : x.path = other
          · subst same
            exact .outside
          · have apart := first.apart second same
            exact .apart apart
      | cons y others =>
          by_cases same : x.path = y.path
          · cases first.eq_of_path second same
            rw [List.cons_append, List.append_cons] at first second
            have below := ih first second
            rw [lastPath_concat] at below
            exact .along below
          · have apart := first.apart second same
            exact .apart apart

theorem IsServed.parting (first : IsServed registry roots s) (second : IsServed registry roots t) :
    Parting "" s.enclosing s.path t.enclosing t.path := by
  obtain ⟨keys, onWay⟩ := first.areOnWay
  obtain ⟨otherKeys, otherWay⟩ := second.areOnWay
  rw [← List.nil_append (s.enclosing ++ _)] at onWay
  rw [← List.nil_append (t.enclosing ++ _)] at otherWay
  exact onWay.parting otherWay

/-- The keys of elements are none of the associations through which the way goes on. -/
theorem AreOnWay.areKeyed (isKeyed : setting.IsKeyed roots)
    (onWay : AreOnWay setting.registry roots (shorter ++ (outers ++ [⟨path, keys⟩]))) : AreKeyed outers path := by
  induction outers generalizing shorter with
  | nil => trivial
  | cons outer inner ih =>
      rw [List.cons_append, List.append_cons] at onWay
      refine ⟨fun key member => ?_, ih onWay⟩
      have found : ∃ next longer, AreOnWay setting.registry roots ((shorter ++ [outer]) ++ next :: longer) ∧
          nextPath inner path = next.path := by
        cases inner with
        | nil => exact ⟨_, _, onWay, rfl⟩
        | cons next rest => exact ⟨next, _, onWay, rfl⟩
      obtain ⟨next, longer, onWay, isNext⟩ := found
      obtain ⟨target, here, isKey, registered⟩ := onWay shorter outer (next :: longer) (by simp)
      rw [isKey] at member
      obtain ⟨plain, noAssociation⟩ := isKeyed.keys target registered key member
      refine ⟨plain, fun head => ?_⟩
      obtain ⟨below, -⟩ := onWay.below
      obtain ⟨_, along, -⟩ := onWay (shorter ++ [outer]) next longer rfl
      rw [lastPath_concat] at below
      rw [isNext] at head
      obtain ⟨further, rest⟩ := List.head?_eq_some_iff.mp head
      rw [rest] at below
      have starts : Path.properties outer.path ++ [key] <+: Path.properties next.path := by
        rw [below]
        exact (List.prefix_append_right_inj _).mpr (List.cons_prefix_cons.mpr ⟨rfl, List.nil_prefix⟩)
      obtain ⟨_, _, there, -⟩ := along.start starts
      rcases there.cases with ⟨none, -⟩ | ⟨earlier, before, around, e, a, _, same, through, declared, leads, -⟩
      · simp at none
      · obtain ⟨rfl, property⟩ := List.append_inj' same rfl
        rw [(through.unique here).1] at declared
        obtain ⟨member, -⟩ := declarer?_eq_some declared
        cases List.mem_singleton.mp member
        exact noAssociation a (declarer?_mem declared) (Registry.isAssociation_of_targetOf leads)
          (List.singleton_inj.mp property).symm

theorem IsServed.areKeyed (isKeyed : setting.IsKeyed roots) (served : IsServed setting.registry roots s) :
    AreKeyed s.enclosing s.path := by
  obtain ⟨keys, onWay⟩ := served.areOnWay
  rw [← List.nil_append (s.enclosing ++ _)] at onWay
  exact onWay.areKeyed isKeyed

end Compile

end ViewEngine
