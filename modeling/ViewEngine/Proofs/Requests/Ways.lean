import Mathlib.Data.List.DropRight
import ViewEngine.Filter.Tree
import ViewEngine.Proofs.Propagation.Addresses
import ViewEngine.Proofs.Schema.Registered

namespace ViewEngine

def Path.along (way : List Attribute) : String :=
  ".".intercalate (way.map (·.property))

/-- The way to the innermost collection on a way; it is empty where there is no collection. -/
def innermost (way : List Attribute) : List Attribute :=
  way.rdropWhile (!·.isCollection)

inductive Registry.Follows (registry : Registry) : Entity → List Attribute → Entity → Prop
  | nil {e : Entity} : Follows registry e [] e
  | cons {e target last : Entity} {a : Attribute} {way : List Attribute} (member : a ∈ e.attributes)
      (step : IsStep a.property) (found : registry.targetOf a = .ok target)
      (follows : Follows registry target way last) : Follows registry e (a :: way) last

def Registry.LeadsOnlyTo (registry : Registry) (e : Entity) (path : String) (way : List Attribute) (a : Attribute) :
    Prop :=
  ∀ other last b, registry.Follows e other last → b ∈ last.attributes → b.column.isSome = true →
    Path.along (other ++ [b]) = path → other = way ∧ b = a

variable {registry : Registry} {e target last other : Entity} {a b : Attribute} {way others : List Attribute}

theorem innermost_of_collection (collection : a.isCollection = true) : innermost (way ++ [a]) = way ++ [a] :=
  List.rdropWhile_concat_neg _ _ _ (by simp [collection])

theorem innermost_of_single (single : a.isCollection = false) : innermost (way ++ [a]) = innermost way :=
  List.rdropWhile_concat_pos _ _ _ (by simp [single])

namespace Registry.Follows

theorem concat (follows : registry.Follows e way last) (member : a ∈ last.attributes) (step : IsStep a.property)
    (found : registry.targetOf a = .ok target) : registry.Follows e (way ++ [a]) target := by
  induction follows with
  | nil => exact .cons member step found .nil
  | cons inside named leads _ ih => exact .cons inside named leads (ih member)

theorem steps (follows : registry.Follows e way last) : ∀ name ∈ way.map (·.property), IsStep name := by
  induction follows with
  | nil => simp
  | cons _ step _ _ ih =>
      rw [List.map_cons, List.forall_mem_cons]
      exact ⟨step, ih⟩

theorem known (follows : registry.Follows e way last) (start : e ∈ registry.all) : last ∈ registry.all := by
  induction follows with
  | nil => exact start
  | cons _ _ found _ ih => exact ih (IsRegistered.mem_of_targetOf found)

theorem of_append (follows : registry.Follows e (way ++ others) last) : ∃ middle, registry.Follows e way middle := by
  induction way generalizing e with
  | nil => exact ⟨e, .nil⟩
  | cons _ _ ih =>
      cases follows with
      | cons member step found follows =>
          obtain ⟨middle, leads⟩ := ih follows
          exact ⟨middle, .cons member step found leads⟩

theorem innermost (follows : registry.Follows e way last) : ∃ middle, registry.Follows e (innermost way) middle := by
  obtain ⟨rest, whole⟩ := List.rdropWhile_prefix (!·.isCollection) way
  rw [← whole] at follows
  exact of_append follows

theorem targetOf_last (follows : registry.Follows e (way ++ [a]) last) : registry.targetOf a = .ok last := by
  induction way generalizing e with
  | nil =>
      cases follows with
      | cons _ _ found follows =>
          cases follows
          exact found
  | cons _ _ ih =>
      cases follows with
      | cons _ _ _ follows => exact ih follows

theorem along_concat (follows : registry.Follows e way last) (a : Attribute) :
    Path.along (way ++ [a]) = Path.child (Path.along way) a.property := by
  rw [Path.along, List.map_append, List.map_singleton]
  exact Path.intercalate_concat (fun name member => (follows.steps name member).1) a.property

theorem properties_along (follows : registry.Follows e way last) :
    Path.properties (Path.along way) = way.map (·.property) :=
  Path.properties_intercalate follows.steps

theorem eq_of_map (built : registry.AreBuilt) (start : e ∈ registry.all) (first : registry.Follows e way last)
    (second : registry.Follows e others other) (same : way.map (·.property) = others.map (·.property)) :
    way = others ∧ last = other := by
  induction first generalizing others with
  | nil =>
      cases List.map_eq_nil_iff.mp same.symm
      cases second
      exact ⟨rfl, rfl⟩
  | cons member _ found _ ih =>
      cases second with
      | nil => contradiction
      | cons inside _ leads follows =>
          obtain ⟨property, rest⟩ := List.cons.inj same
          obtain rfl := (built _ start).eq_of_property member inside property
          cases found.symm.trans leads
          obtain ⟨rfl, rfl⟩ := ih (IsRegistered.mem_of_targetOf found) follows rest
          exact ⟨rfl, rfl⟩

theorem eq_of_along (built : registry.AreBuilt) (start : e ∈ registry.all) (first : registry.Follows e way last)
    (second : registry.Follows e others other) (same : Path.along way = Path.along others) :
    way = others ∧ last = other :=
  first.eq_of_map built start second (by rw [← first.properties_along, same, second.properties_along])

theorem eq_of_child (built : registry.AreBuilt) (start : e ∈ registry.all) (first : registry.Follows e way last)
    (second : registry.Follows e others other) (member : a ∈ last.attributes) (inside : b ∈ other.attributes)
    (whole : '.' ∉ a.property.toList) (otherWhole : '.' ∉ b.property.toList)
    (same : Path.child (Path.along way) a.property = Path.child (Path.along others) b.property) :
    way = others ∧ last = other ∧ a = b := by
  have cut := congrArg Path.splitProperty same
  rw [Path.splitProperty_child _ whole, Path.splitProperty_child _ otherWhole] at cut
  obtain ⟨above, property⟩ := Prod.mk.inj cut
  obtain ⟨rfl, rfl⟩ := first.eq_of_along built start second above
  exact ⟨rfl, rfl, (built _ (first.known start)).eq_of_property member inside property⟩

theorem leadsOnlyTo (built : registry.AreBuilt) (start : e ∈ registry.all) (follows : registry.Follows e way last)
    (member : a ∈ last.attributes) (stored : a.column.isSome = true)
    (whole : ∀ e ∈ registry.all, ∀ a ∈ e.attributes, a.column.isSome = true → '.' ∉ a.property.toList) :
    registry.LeadsOnlyTo e (Path.along (way ++ [a])) way a := by
  intro others other b second inside held same
  rw [follows.along_concat, second.along_concat] at same
  obtain ⟨rfl, -, rfl⟩ := second.eq_of_child built start follows inside member
    (whole other (second.known start) b inside held) (whole last (follows.known start) a member stored) same
  exact ⟨rfl, rfl⟩

end Registry.Follows

namespace FilterTree

open Registry

variable {t : FilterTree} {path : String} {current : Attribute} {rest : List String}

theorem follows_of_follow (member : current ∈ e.attributes) (step : IsStep current.property)
    (steps : ∀ name ∈ rest, IsStep name)
    (found : follow registry current rest = .ok (way, a)) : ∃ last, registry.Follows e way last ∧
      a ∈ last.attributes ∧ IsStep a.property ∧ (way ++ [a]).map (·.property) = current.property :: rest := by
  induction rest generalizing current e way with
  | nil =>
      cases found
      exact ⟨e, .nil, member, step, rfl⟩
  | cons name rest ih =>
      obtain ⟨target, leads, found⟩ := bind_eq_ok.mp found
      split at found
      next => contradiction
      next next held =>
        obtain ⟨⟨further, last⟩, followed, found⟩ := bind_eq_ok.mp found
        cases found
        have property : next.property = name := by simpa using List.find?_some held
        obtain ⟨ending, follows, inside, isStep, names⟩ := ih (List.mem_of_find?_eq_some held)
          (property ▸ steps name (List.mem_cons_self ..))
          (fun other later => steps other (List.mem_cons_of_mem _ later)) followed
        refine ⟨ending, .cons member step leads follows, inside, isStep, ?_⟩
        rw [List.cons_append, List.map_cons, names, property]

/-- A path that is resolved leads along associations from a root to an attribute of the last target. -/
theorem exists_follows_of_resolve (found : t.resolve registry path = .ok (way, a)) :
    ∃ e ∈ t.roots, ∃ last, registry.Follows e way last ∧ a ∈ last.attributes ∧ IsStep a.property ∧
      Path.along (way ++ [a]) = path := by
  unfold resolve at found
  dsimp only at found
  split at found
  next => contradiction
  next first rest cut =>
    split at found
    next => contradiction
    next filled =>
      have steps : ∀ name ∈ first :: rest, IsStep name := by
        intro name member
        refine ⟨fun empty => filled (List.any_eq_true.mpr ⟨name, cut ▸ member, by simp [empty]⟩), ?_⟩
        exact Text.not_mem_of_mem_split (cut ▸ member)
      split at found
      next => contradiction
      next entry held =>
        obtain ⟨e, isRoot, held⟩ := List.exists_of_findSome?_eq_some held
        have property : entry.property = first := by simpa using List.find?_some held
        obtain ⟨last, follows, member, step, names⟩ := follows_of_follow (List.mem_of_find?_eq_some held)
          (property ▸ steps first (List.mem_cons_self ..)) (fun name later => steps name (List.mem_cons_of_mem _ later))
          found
        refine ⟨e, isRoot, last, follows, member, step, ?_⟩
        rw [Path.along, names, property, ← cut]
        exact Text.intercalate_split '.' path

theorem follows_of_resolve (single : t.otherRoots = []) (found : t.resolve registry path = .ok (way, a)) :
    ∃ last, registry.Follows t.root way last ∧ a ∈ last.attributes ∧ IsStep a.property ∧
      Path.along (way ++ [a]) = path := by
  obtain ⟨e, isRoot, follows⟩ := exists_follows_of_resolve found
  rw [roots, single, List.mem_singleton] at isRoot
  exact isRoot ▸ follows

/-- Where no column has a dot in its name, a path that is resolved to a column leads to that one only. -/
theorem leadsOnlyTo_of_resolve (built : registry.AreBuilt) (single : t.otherRoots = []) (known : t.root ∈ registry.all)
    (whole : ∀ e ∈ registry.all, ∀ a ∈ e.attributes, a.column.isSome = true → '.' ∉ a.property.toList)
    (found : t.resolve registry path = .ok (way, a)) (isColumn : a.isAssociation = false) :
    registry.LeadsOnlyTo t.root path way a := by
  obtain ⟨last, follows, member, -, rfl⟩ := follows_of_resolve single found
  exact follows.leadsOnlyTo built known member ((built last (follows.known known)).isStored member isColumn) whole

end FilterTree

end ViewEngine
