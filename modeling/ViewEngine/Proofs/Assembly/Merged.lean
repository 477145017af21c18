import Mathlib.Data.List.Nodup
import ViewEngine.Proofs.Assembly.Ways
import ViewEngine.View.Assembly

/-!
What a root row holds when it has taken its results. Root rows are told apart by the texts of their keys, and each
of them takes the results that carry its key, in their order, whatever the results of the others are. Each list then
holds the elements of the results that stand there, in their order, and all else is as it was at the start.
-/

namespace ViewEngine

namespace RootRow

def changed (keyText : String) (change : Row → Row) (row : RootRow) : RootRow :=
  if row.keyText = keyText then { row with fields := change row.fields } else row

variable {rows : List RootRow} {keyText : String} {change : Row → Row}

@[simp] theorem changed_keyText (row : RootRow) : (row.changed keyText change).keyText = row.keyText := by
  unfold changed
  split <;> rfl

theorem map_changed_of_fresh (fresh : keyText ∉ rows.map (·.keyText)) : rows.map (changed keyText change) = rows := by
  refine (List.map_congr_left fun row member => ?_).trans (List.map_id rows)
  exact if_neg fun same => fresh (List.mem_map.mpr ⟨row, member, same⟩)

theorem changeLast_eq_map (distinct : (rows.map (·.keyText)).Nodup) :
    changeLast keyText change rows = rows.map (changed keyText change) := by
  induction rows with
  | nil => rfl
  | cons row rest ih =>
      obtain ⟨fresh, distinct⟩ := List.nodup_cons.mp distinct
      unfold changeLast
      by_cases own : row.keyText = keyText
      · subst own
        have last : (!rest.any (·.keyText == row.keyText)) = true := by
          simpa using fresh
        rw [beq_self_eq_true, last, List.map_cons, map_changed_of_fresh fresh, changed, if_pos rfl]
        rfl
      · rw [beq_false_of_ne own, List.map_cons, changed, if_neg own, ← ih distinct]
        rfl

end RootRow

namespace CompiledView

variable (v : CompiledView) (s : SubSelect)

/-- A result row of a sub-select, without the key of the root row that it belongs to. -/
def carrier (result : Row) : Row :=
  (Row.ofColumns s.columns result).erase v.rootKeyAlias

def receive (fields result : Row) : Row :=
  match v.element? s (v.carrier s result) with
  | none => fields
  | some element => (Row.addElement (v.carrier s result) element s.path "" s.enclosing fields).getD fields

def resultsFor (keyText : String) (results : List Row) : List Row :=
  results.filter fun result => v.keyText (Row.ofColumns s.columns result) == keyText

/-- The root rows with the results of sub-selects, added one sub-select after the other. -/
def merge (rows : List RootRow) (collections : List (SubSelect × List Row)) : List RootRow :=
  collections.foldl (fun rows c => v.addCollection c.1 rows c.2) rows

/-- The results that a root row with a key takes, each with its sub-select, in the order in which they are added. -/
def deliveries (keyText : String) (collections : List (SubSelect × List Row)) : List (SubSelect × Row) :=
  collections.flatMap fun c => (v.resultsFor c.1 keyText c.2).map (c.1, ·)

def received (deliveries : List (SubSelect × Row)) (fields : Row) : Row :=
  deliveries.foldl (fun fields d => v.receive d.1 fields d.2) fields

variable {v s} {rows : List RootRow}

theorem addResult_eq_map (distinct : (rows.map (·.keyText)).Nodup) (result : Row) : v.addResult s rows result =
    rows.map (.changed (v.keyText (Row.ofColumns s.columns result)) (v.receive s · result)) := by
  have unfolded : v.addResult s rows result = match v.element? s (v.carrier s result) with
      | none => rows
      | some element => RootRow.changeLast (v.keyText (Row.ofColumns s.columns result)) (fun fields =>
          (Row.addElement (v.carrier s result) element s.path "" s.enclosing fields).getD fields) rows := rfl
  rw [unfolded]
  cases found : v.element? s (v.carrier s result) with
  | none =>
      simp only [receive, found]
      refine ((List.map_congr_left fun row _ => ?_).trans (List.map_id rows)).symm
      unfold RootRow.changed
      split <;> rfl
  | some element =>
      simp only [receive, found]
      exact RootRow.changeLast_eq_map distinct

theorem addCollection_eq_map (distinct : (rows.map (·.keyText)).Nodup) (results : List Row) :
    v.addCollection s rows results = rows.map fun row =>
      { row with fields := (v.resultsFor s row.keyText results).foldl (v.receive s) row.fields } := by
  induction results generalizing rows with
  | nil => exact (List.map_id rows).symm
  | cons result rest ih =>
      have first := addResult_eq_map (v := v) (s := s) distinct result
      have further : ((v.addResult s rows result).map (·.keyText)).Nodup := by
        rw [first, List.map_map]
        simpa [Function.comp_def] using distinct
      rw [addCollection, List.foldl_cons, ← addCollection, ih further, first, List.map_map]
      refine List.map_congr_left fun row _ => ?_
      rw [Function.comp_apply, RootRow.changed_keyText, resultsFor, resultsFor, List.filter_cons]
      by_cases own : row.keyText = v.keyText (Row.ofColumns s.columns result)
      · simp [RootRow.changed, own]
      · simp [RootRow.changed, own, Ne.symm own]

/-- Root rows take the results that carry their keys, one row like the other. -/
theorem merge_eq_map (distinct : (rows.map (·.keyText)).Nodup) (collections : List (SubSelect × List Row)) :
    v.merge rows collections = rows.map fun row =>
      { row with fields := v.received (v.deliveries row.keyText collections) row.fields } := by
  induction collections generalizing rows with
  | nil => exact (List.map_id rows).symm
  | cons c rest ih =>
      have first := addCollection_eq_map (v := v) (s := c.1) distinct c.2
      have further : ((v.addCollection c.1 rows c.2).map (·.keyText)).Nodup := by
        rw [first, List.map_map]
        exact distinct
      rw [merge, List.foldl_cons, ← merge, ih further, first, List.map_map]
      refine List.map_congr_left fun row _ => ?_
      rw [Function.comp_apply, deliveries, deliveries, List.flatMap_cons, received, received, List.foldl_append,
        List.foldl_map]

end CompiledView

open Row

namespace CompiledView

def rootPlaces (v : CompiledView) : List (List String) :=
  (v.subSelects.filter (·.enclosing.isEmpty)).map fun s => propertiesOf s.path

def innerPlaces (v : CompiledView) (s : SubSelect) : List (List String) :=
  (v.subSelects.filter fun t => t.enclosing.getLast?.any (·.path == s.path)).map fun t => propertiesBelow t.path s.path

/-- An element of a collection, without the elements of the collections in it. -/
def emptied (v : CompiledView) (s : SubSelect) : Value → Value
  | .row fields => .row (startAll (v.innerPlaces s) fields)
  | value => value

/-- Collections around one another come in this order, and the others are apart. -/
structure IsArranged (v : CompiledView) : Prop where
  distinct : (v.subSelects.map (·.path)).Nodup
  order : v.subSelects.Pairwise fun s t => t.path ∉ s.enclosing.map (·.path)
  outside : ∀ s ∈ v.subSelects, s.path ∉ s.enclosing.map (·.path)
  parting : ∀ s ∈ v.subSelects, ∀ t ∈ v.subSelects, Parting "" s.enclosing s.path t.enclosing t.path
  keyed : ∀ s ∈ v.subSelects, AreKeyed s.enclosing s.path
  rootApart : v.rootPlaces.Pairwise Apart
  innerApart : ∀ s ∈ v.subSelects, (v.innerPlaces s).Pairwise Apart
  root : ∀ s ∈ v.subSelects, propertiesBelow (nextPath s.enclosing s.path) "" ∈ v.rootPlaces
  inner : ∀ s ∈ v.subSelects, ∀ t ∈ v.subSelects, ∀ shorter outer longer, s.enclosing = shorter ++ outer :: longer →
    outer.path = t.path → propertiesBelow (nextPath longer s.path) t.path ∈ v.innerPlaces t

/-- Whether a result is one of a collection that stands in the elements at some positions. -/
def standsAt (v : CompiledView) (s : SubSelect) (places : List Nat) (fields : Row) (d : SubSelect × Row) : Bool :=
  d.1.path == s.path && standing? (v.carrier d.1 d.2) "" s.enclosing fields == some places

def elements (v : CompiledView) (deliveries : List (SubSelect × Row)) : List Value :=
  deliveries.filterMap fun d => v.element? d.1 (v.carrier d.1 d.2)

/-- A root row holds what it started with, and the elements of the results that it has taken. -/
structure HasTaken (v : CompiledView) (start : Row) (taken : List (SubSelect × Row)) (fields : Row) : Prop where
  rest : startAll v.rootPlaces fields = start
  lists : ∀ s ∈ v.subSelects, ∀ places held, slotAt? s.path "" s.enclosing places fields = some held →
    ∃ items, held = some (.list items) ∧
      items.map (v.emptied s) = v.elements (taken.filter (v.standsAt s places fields))

variable {v : CompiledView} {s t : SubSelect} {start fields written : Row} {taken : List (SubSelect × Row)}
  {result : Row} {element : Value} {places positions : List Nat} {held : Option Value} {path above : String}
  {outers : List EnclosingCollection}

theorem IsArranged.eq_of_path (arranged : v.IsArranged) (first : s ∈ v.subSelects) (second : t ∈ v.subSelects)
    (same : s.path = t.path) : s = t :=
  List.inj_on_of_nodup_map arranged.distinct first second same

theorem slotAt?_fresh (empty : ∀ held, fields.slot? (propertiesBelow (nextPath outers path) above) = some held →
      held = some (.list []))
    (stands : slotAt? path above outers places fields = some held) : held = some (.list []) := by
  cases outers with
  | nil =>
      cases places with
      | nil => exact empty held stands
      | cons => contradiction
  | cons outer inner =>
      cases places with
      | nil => contradiction
      | cons place further =>
          obtain ⟨items, isList, stands⟩ := Option.bind_eq_some_iff.mp stands
          obtain ⟨element, found, -⟩ := Option.bind_eq_some_iff.mp stands
          have none := empty _ (slot?_of_list isList)
          simp only [Option.some.injEq, Value.list.injEq] at none
          subst none
          simp at found

theorem element?_emptied (arranged : v.IsArranged) (member : s ∈ v.subSelects) {carrier : Row}
    (found : v.element? s carrier = some element) : v.emptied s element = element := by
  unfold element? at found
  split at found
  · contradiction
  · contradiction
  next given _ =>
    have started : v.emptied s (.row given) = element := by
      rw [← Option.some.inj found, emptied, startAll, innerPlaces, List.foldl_map]
    rw [← started, emptied, emptied, startAll_startAll (arranged.innerApart s member)]
  next isNoRow _ =>
    cases found
    cases element with
    | row given => exact absurd rfl (isNoRow given)
    | _ => rfl

theorem element?_fresh (arranged : v.IsArranged) (member : s ∈ v.subSelects) {carrier given : Row}
    (found : v.element? s carrier = some (.row given)) (inner : t ∈ v.subSelects)
    {outer : EnclosingCollection} {longer : List EnclosingCollection}
    (through : t.enclosing = s.enclosing ++ outer :: longer) (own : outer.path = s.path)
    (stands : slotAt? t.path s.path longer places given = some held) : held = some (.list []) := by
  have started := element?_emptied arranged member found
  rw [emptied, Value.row.injEq] at started
  refine slotAt?_fresh (fun held slot => ?_) stands
  rw [← started, slot?_startAll (arranged.innerApart s member) (arranged.inner t inner s member _ _ _ through own)] at slot
  exact (Option.map_eq_some_iff.mp slot).choose_spec.2.symm

theorem standsAt_of_standing (standing : standing? (v.carrier s result) "" s.enclosing fields = some positions) :
    v.standsAt s positions fields (s, result) = true := by
  rw [standsAt, standing, beq_self_eq_true, beq_self_eq_true]
  rfl

theorem standsAt_eq_false (arranged : v.IsArranged) (member : s ∈ v.subSelects) (inner : t ∈ v.subSelects)
    (standing : standing? (v.carrier s result) "" s.enclosing fields = some positions)
    (apart : ¬ (t = s ∧ places = positions)) : v.standsAt t places fields (s, result) = false := by
  by_contra stands
  simp only [standsAt, Bool.not_eq_false, Bool.and_eq_true, beq_iff_eq] at stands
  obtain ⟨isPath, here⟩ := stands
  obtain rfl := arranged.eq_of_path member inner isPath
  exact apart ⟨rfl, Option.some.inj (here.symm.trans standing)⟩

theorem elements_concat (taken : List (SubSelect × Row)) (test : SubSelect × Row → Bool) (d : SubSelect × Row) :
    v.elements ((taken ++ [d]).filter test) = v.elements (taken.filter test) ++ v.elements ([d].filter test) := by
  rw [List.filter_append]
  exact List.filterMap_append ..

theorem map_emptied_set {items : List Value} {position : Nat} {given within : Row}
    (at_ : items[position]? = some (.row given)) (same : v.emptied t (.row within) = v.emptied t (.row given)) :
    (items.set position (.row within)).map (v.emptied t) = items.map (v.emptied t) := by
  obtain ⟨bound, found⟩ := List.getElem?_eq_some_iff.mp at_
  have inside : position < (items.map (v.emptied t)).length := by rwa [List.length_map]
  have unchanged := List.set_getElem_self inside
  rw [List.getElem_map, found] at unchanged
  rw [List.map_set, same, unchanged]

/-- Results that have been taken stand where they stood, whatever is added to a collection that comes after theirs. -/
theorem filter_standsAt (arranged : v.IsArranged) (member : s ∈ v.subSelects) (inner : t ∈ v.subSelects)
    (receives : Receives element s.path "" s.enclosing positions fields written)
    (known : ∀ d ∈ taken, d.1 ∈ v.subSelects ∧ s.path ∉ d.1.enclosing.map (·.path)) (places : List Nat) :
    taken.filter (v.standsAt t places written) = taken.filter (v.standsAt t places fields) := by
  refine List.filter_congr fun d inside => ?_
  unfold standsAt
  by_cases own : d.1.path = t.path
  · obtain ⟨among, outside⟩ := known d inside
    rw [arranged.eq_of_path among inner own] at outside
    rw [receives.standing? (arranged.parting s member t inner) (arranged.keyed s member) outside]
  · rw [beq_false_of_ne own, Bool.false_and, Bool.false_and]

theorem HasTaken.concat_of_none (hasTaken : v.HasTaken start taken fields)
    (nothing : ∀ t ∈ v.subSelects, ∀ places held, slotAt? t.path "" t.enclosing places fields = some held →
      v.elements ([(s, result)].filter (v.standsAt t places fields)) = []) :
    v.HasTaken start (taken ++ [(s, result)]) fields where
  rest := hasTaken.rest
  lists t member places held stands := by
    obtain ⟨items, isList, same⟩ := hasTaken.lists t member places held stands
    refine ⟨items, isList, ?_⟩
    rw [elements_concat, nothing t member places held stands, List.append_nil]
    exact same

theorem HasTaken.concat_of_receives (arranged : v.IsArranged) (member : s ∈ v.subSelects)
    (hasTaken : v.HasTaken start taken fields)
    (known : ∀ d ∈ taken, d.1 ∈ v.subSelects ∧ s.path ∉ d.1.enclosing.map (·.path))
    (found : v.element? s (v.carrier s result) = some element)
    (standing : standing? (v.carrier s result) "" s.enclosing fields = some positions)
    (receives : Receives element s.path "" s.enclosing positions fields written) :
    v.HasTaken start (taken ++ [(s, result)]) written where
  rest := by
    obtain ⟨value, held, writes⟩ := receives.writes
    rw [← hasTaken.rest]
    exact writes.startAll arranged.rootApart (arranged.root s member)
  lists t inner places held stands := by
    have old := filter_standsAt arranged member inner receives known places
    have still : standing? (v.carrier s result) "" s.enclosing written = some positions := by
      rw [receives.standing? (arranged.parting s member s member) (arranged.keyed s member) (arranged.outside s member)]
      exact standing
    have elsewhere {items : List Value}
        (same : items.map (v.emptied t) = v.elements (taken.filter (v.standsAt t places fields)))
        (apart : ¬ (t = s ∧ places = positions)) : items.map (v.emptied t) =
          v.elements ((taken ++ [(s, result)]).filter (v.standsAt t places written)) := by
      have absent := standsAt_eq_false arranged member inner still apart
      rw [elements_concat, old, List.filter_singleton, absent, same]
      exact (List.append_nil _).symm
    cases receives.effect (arranged.parting s member t inner) stands with
    | same before apart =>
        obtain ⟨items, isList, same⟩ := hasTaken.lists t inner places held before
        refine ⟨items, isList, elsewhere same ?_⟩
        rintro ⟨rfl, here⟩
        exact apart ⟨rfl, rfl, here⟩
    | @grown items here before =>
        obtain ⟨-, own, isPlace⟩ := here
        obtain rfl := arranged.eq_of_path inner member own
        obtain ⟨_, isList, same⟩ := hasTaken.lists t inner places _ before
        cases isList
        refine ⟨items ++ [element], rfl, ?_⟩
        rw [elements_concat, old, List.filter_singleton, isPlace, standsAt_of_standing still, List.map_append, ← isPlace,
          same, List.map_singleton, element?_emptied arranged inner found]
        simp [elements, found]
    | @changed outer longer items position given within value _ through own before at_ writes =>
        obtain ⟨_, isList, same⟩ := hasTaken.lists t inner places _ before
        cases isList
        refine ⟨items.set position (.row within), rfl, elsewhere ((map_emptied_set at_ ?_).trans same) ?_⟩
        · exact congrArg Value.row (writes.startAll (arranged.innerApart t inner)
            (arranged.inner s member t inner _ _ _ through own))
        · rintro ⟨rfl, -⟩
          exact arranged.outside t inner (through ▸ by simp [own])
    | @entered outer longer further given _ through own isRow stands =>
        subst isRow
        have fresh := element?_fresh arranged member found inner through own stands
        have behind : s.path ∈ t.enclosing.map (·.path) := through ▸ by simp [own]
        refine ⟨[], fresh, elsewhere ?_ ?_⟩
        · have none : taken.filter (v.standsAt t places fields) = [] := by
            refine List.filter_eq_nil_iff.mpr fun d inside stands => ?_
            obtain ⟨among, outside⟩ := known d inside
            have isPath : d.1.path = t.path := by
              simp only [standsAt, Bool.and_eq_true, beq_iff_eq] at stands
              exact stands.1
            rw [arranged.eq_of_path among inner isPath] at outside
            exact outside behind
          rw [none]
          rfl
        · rintro ⟨rfl, -⟩
          exact arranged.outside t inner behind

theorem HasTaken.receive (arranged : v.IsArranged) (member : s ∈ v.subSelects)
    (hasTaken : v.HasTaken start taken fields)
    (known : ∀ d ∈ taken, d.1 ∈ v.subSelects ∧ s.path ∉ d.1.enclosing.map (·.path)) (result : Row) :
    v.HasTaken start (taken ++ [(s, result)]) (v.receive s fields result) := by
  unfold CompiledView.receive
  cases found : v.element? s (v.carrier s result) with
  | none =>
      refine hasTaken.concat_of_none fun t inner places held stands => ?_
      refine List.filterMap_eq_nil_iff.mpr fun d inside => ?_
      rw [List.mem_singleton.mp (List.mem_filter.mp inside).1]
      exact found
  | some element =>
      cases added : Row.addElement (v.carrier s result) element s.path "" s.enclosing fields with
      | some written =>
          obtain ⟨positions, held, standing, slot⟩ := stands_of_addElement (arranged.keyed s member) added
          obtain ⟨items, rfl, -⟩ := hasTaken.lists s member positions held slot
          obtain ⟨_, again, receives⟩ := addElement_receives element (arranged.keyed s member) standing slot
          cases added.symm.trans again
          dsimp only
          rw [added, Option.getD_some]
          exact hasTaken.concat_of_receives arranged member known found standing receives
      | none =>
          dsimp only
          rw [added, Option.getD_none]
          refine hasTaken.concat_of_none fun t inner places held stands => ?_
          have absent : ([(s, result)].filter (v.standsAt t places fields)) = [] := by
            refine List.filter_eq_nil_iff.mpr fun d inside standing => ?_
            cases List.mem_singleton.mp inside
            simp only [standsAt, Bool.and_eq_true, beq_iff_eq] at standing
            obtain rfl := arranged.eq_of_path member inner standing.1
            obtain ⟨items, rfl, -⟩ := hasTaken.lists s member places held stands
            obtain ⟨_, again, -⟩ := addElement_receives element (arranged.keyed s member) standing.2 stands
            rw [added] at again
            contradiction
          rw [absent]
          rfl

theorem hasTaken_nothing (arranged : v.IsArranged) (row : Row) :
    v.HasTaken (startAll v.rootPlaces row) [] (startAll v.rootPlaces row) where
  rest := startAll_startAll arranged.rootApart row
  lists s member _ _ stands := by
    refine ⟨[], slotAt?_fresh (fun _ slot => ?_) stands, rfl⟩
    rw [slot?_startAll arranged.rootApart (arranged.root s member)] at slot
    exact (Option.map_eq_some_iff.mp slot).choose_spec.2.symm

/-- Results of the sub-selects of a view, none before the collections around it. -/
structure AreOrdered (v : CompiledView) (deliveries : List (SubSelect × Row)) : Prop where
  known : ∀ d ∈ deliveries, d.1 ∈ v.subSelects
  order : deliveries.Pairwise fun d e => e.1.path ∉ d.1.enclosing.map (·.path)

theorem HasTaken.received (arranged : v.IsArranged) {further : List (SubSelect × Row)}
    (hasTaken : v.HasTaken start taken fields) (ordered : v.AreOrdered (taken ++ further)) :
    v.HasTaken start (taken ++ further) (v.received further fields) := by
  induction further generalizing taken fields with
  | nil => rwa [List.append_nil]
  | cons d rest ih =>
      rw [List.append_cons] at ordered ⊢
      have member : d.1 ∈ v.subSelects := ordered.known d (by simp)
      have before := (List.pairwise_append.mp (List.pairwise_append.mp ordered.order).1).2.2
      refine ih (hasTaken.receive arranged member (fun e inside => ⟨?_, ?_⟩) d.2) ordered
      · exact ordered.known e (by simp [inside])
      · exact before e inside d (List.mem_singleton_self d)

variable {collections : List (SubSelect × List Row)} {keyText : String}

theorem deliveries_ordered (arranged : v.IsArranged) (each : collections.map Prod.fst = v.subSelects)
    (keyText : String) : v.AreOrdered (v.deliveries keyText collections) where
  known d member := by
    obtain ⟨c, inside, delivered⟩ := List.mem_flatMap.mp member
    obtain ⟨result, -, rfl⟩ := List.mem_map.mp delivered
    exact each ▸ List.mem_map_of_mem inside
  order := by
    refine List.pairwise_flatMap.mpr ⟨fun c inside => List.pairwise_map.mpr (List.pairwise_of_forall fun _ _ => ?_), ?_⟩
    · exact arranged.outside c.1 (each ▸ List.mem_map_of_mem inside)
    · have order := arranged.order
      rw [← each, List.pairwise_map] at order
      refine order.imp fun apart d delivered e later => ?_
      obtain ⟨_, -, rfl⟩ := List.mem_map.mp delivered
      obtain ⟨_, -, rfl⟩ := List.mem_map.mp later
      exact apart

theorem deliveries_filter (paths : (collections.map (·.1.path)).Nodup) {results : List Row}
    (member : (s, results) ∈ collections) : (v.deliveries keyText collections).filter (·.1.path == s.path) =
      (v.resultsFor s keyText results).map (s, ·) := by
  induction collections with
  | nil => contradiction
  | cons c rest ih =>
      obtain ⟨fresh, distinct⟩ := List.nodup_cons.mp paths
      have unfolded : v.deliveries keyText (c :: rest) =
          (v.resultsFor c.1 keyText c.2).map (c.1, ·) ++ v.deliveries keyText rest := List.flatMap_cons ..
      rw [unfolded, List.filter_append, List.filter_map]
      rcases List.mem_cons.mp member with rfl | later
      · have others : (v.deliveries keyText rest).filter (·.1.path == s.path) = [] := by
          refine List.filter_eq_nil_iff.mpr fun d delivered same => fresh ?_
          obtain ⟨e, inside, delivered⟩ := List.mem_flatMap.mp delivered
          obtain ⟨_, -, rfl⟩ := List.mem_map.mp delivered
          exact List.mem_map.mpr ⟨e, inside, beq_iff_eq.mp same⟩
        rw [others, List.append_nil]
        exact congrArg _ (List.filter_eq_self.mpr fun _ _ => beq_self_eq_true _)
      · have different : c.1.path ≠ s.path := fun same => fresh (List.mem_map.mpr ⟨_, later, same.symm⟩)
        rw [ih distinct later, List.filter_eq_nil_iff.mpr fun _ _ => by simpa using different]
        rfl

end CompiledView

end ViewEngine
