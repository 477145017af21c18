import ViewEngine.Proofs.Assembly.Slots
import ViewEngine.Proofs.Compilation.Paths

/-!
The elements of collections, by their positions in the lists on the way. A result row stands at the first
elements whose keys it carries. What is added there leaves alone where other rows stand, and what the other
collections hold.
-/

namespace ViewEngine

def Value.findRow? (test : Row → Bool) : List Value → Option (Nat × Row)
  | [] => none
  | item :: rest =>
    ((item.asRow?.filter test).map fun fields => (0, fields)).or
      ((findRow? test rest).map fun found => (found.1 + 1, found.2))

namespace Row

def isSame (keys : List String) (a b : Row) : Bool :=
  keys.all fun key => Value.equalSlots (a.valueAt? (propertiesOf key)) (b.valueAt? (propertiesOf key))

/-- The positions of the elements that enclose a result row: in each list on the way the first one with the keys
that the row carries. -/
def standing? (carrier : Row) : String → List EnclosingCollection → Row → Option (List Nat)
  | _, [], _ => some []
  | above, outer :: inner, row => do
    let identity ← (carrier.valueAt? (propertiesOf outer.path)).bind Value.asRow?
    let items ← (row.valueAt? (propertiesBelow outer.path above)).bind Value.asList?
    let found ← Value.findRow? (isSame outer.keys identity) items
    let positions ← standing? carrier outer.path inner found.2
    return found.1 :: positions

/-- What stands for a collection in the elements at the positions, where there is a row to hold it. -/
def slotAt? (path : String) : String → List EnclosingCollection → List Nat → Row → Option (Option Value)
  | above, [], [], row => row.slot? (propertiesBelow path above)
  | above, outer :: inner, position :: positions, row => do
    let items ← (row.valueAt? (propertiesBelow outer.path above)).bind Value.asList?
    let element ← items[position]?.bind Value.asRow?
    slotAt? path outer.path inner positions element
  | _, _, _, _ => none

end Row

namespace Value

variable {test other : Row → Bool} {items : List Value} {fields changed : Row} {position : Nat}

theorem findRow?_of_hit (holds : test fields = true) : findRow? test (.row fields :: items) = some (0, fields) := by
  rw [findRow?, asRow?, Option.filter_some, if_pos holds]
  rfl

theorem findRow?_of_miss {item : Value} (fails : item.asRow?.filter test = none) :
    findRow? test (item :: items) = (findRow? test items).map fun found => (found.1 + 1, found.2) := by
  rw [findRow?, fails]
  rfl

theorem hit_or_miss (test : Row → Bool) (item : Value) :
    (∃ fields, item = .row fields ∧ test fields = true) ∨ item.asRow?.filter test = none := by
  cases item with
  | row fields =>
      cases holds : test fields with
      | true => exact .inl ⟨fields, rfl, holds⟩
      | false => exact .inr (by rw [asRow?, Option.filter_some, if_neg (by simp [holds])])
  | _ => exact .inr rfl

theorem changeFirst?_of_miss {item : Value} {change : Row → Option Row} (fails : item.asRow?.filter test = none) :
    changeFirst? test change (item :: items) = (changeFirst? test change items).map (item :: ·) := by
  cases item with
  | row fields =>
      have other : ¬ test fields = true := fun holds => by
        rw [asRow?, Option.filter_some, if_pos holds] at fails
        contradiction
      rw [changeFirst?, if_neg other]
  | _ => rfl

theorem changeFirst?_eq (test : Row → Bool) (change : Row → Option Row) (items : List Value) :
    changeFirst? test change items = (findRow? test items).bind fun found =>
      (change found.2).map fun fields => items.set found.1 (.row fields) := by
  induction items with
  | nil => rfl
  | cons item rest ih =>
      rcases hit_or_miss test item with ⟨fields, rfl, holds⟩ | fails
      · rw [changeFirst?, if_pos holds, findRow?_of_hit holds]
        rfl
      · rw [changeFirst?_of_miss fails, findRow?_of_miss fails, ih]
        cases findRow? test rest with
        | none => rfl
        | some found => simp [Function.comp_def]

theorem getElem?_of_findRow? (found : findRow? test items = some (position, fields)) :
    items[position]? = some (.row fields) := by
  induction items generalizing position with
  | nil => contradiction
  | cons item rest ih =>
      rcases hit_or_miss test item with ⟨first, rfl, holds⟩ | fails
      · rw [findRow?_of_hit holds] at found
        cases found
        rfl
      · rw [findRow?_of_miss fails] at found
        obtain ⟨⟨place, row⟩, later, same⟩ := Option.map_eq_some_iff.mp found
        cases same
        exact ih later

theorem findRow?_set (same : test changed = test fields) (within : items[position]? = some (.row fields)) :
    findRow? test (items.set position (.row changed)) =
      (findRow? test items).map fun found => (found.1, if found.1 = position then changed else found.2) := by
  induction items generalizing position with
  | nil => contradiction
  | cons item rest ih =>
      cases position with
      | zero =>
          cases within
          rcases hit_or_miss test (.row fields) with ⟨_, isRow, holds⟩ | fails
          · cases isRow
            rw [List.set_cons_zero, findRow?_of_hit holds, findRow?_of_hit (same.trans holds)]
            rfl
          · have other : (Value.row changed).asRow?.filter test = none := by
              rw [asRow?, Option.filter_some] at fails ⊢
              rw [same]
              split at fails
              · contradiction
              next none => rw [if_neg none]
            rw [List.set_cons_zero, findRow?_of_miss other, findRow?_of_miss fails, Option.map_map]
            rfl
      | succ position =>
          rcases hit_or_miss test item with ⟨first, rfl, holds⟩ | fails
          · rw [List.set_cons_succ, findRow?_of_hit holds, findRow?_of_hit holds]
            rfl
          · rw [List.set_cons_succ, findRow?_of_miss fails, findRow?_of_miss fails, ih within, Option.map_map,
              Option.map_map]
            simp [Function.comp_def]

end Value

namespace Row

/-- The collection that a way through enclosing collections leads to first. -/
def nextPath (outers : List EnclosingCollection) (path : String) : String :=
  (outers.head?.map (·.path)).getD path

/-- Keys are columns of elements, apart from the collections in them. -/
def AreKeyed : List EnclosingCollection → String → Prop
  | [], _ => True
  | outer :: inner, path =>
    (∀ key ∈ outer.keys, '.' ∉ key.toList ∧ (propertiesBelow (nextPath inner path) outer.path).head? ≠ some key) ∧
      AreKeyed inner path

/-- Ways to two collections. They lead through the same elements, until one of them ends, or they part. -/
inductive Parting : String → List EnclosingCollection → String → List EnclosingCollection → String → Prop
  | apart {above path other : String} {outers others : List EnclosingCollection}
      (apart : Apart (propertiesBelow (nextPath outers path) above) (propertiesBelow (nextPath others other) above)) :
      Parting above outers path others other
  | along {above path other : String} {outer : EnclosingCollection} {outers others : List EnclosingCollection}
      (below : Parting outer.path outers path others other) :
      Parting above (outer :: outers) path (outer :: others) other
  | same {above path : String} : Parting above [] path [] path
  | outside {above path : String} {outer : EnclosingCollection} {outers : List EnclosingCollection} :
      Parting above (outer :: outers) path [] outer.path
  | inside {above other : String} {outer : EnclosingCollection} {others : List EnclosingCollection} :
      Parting above [] outer.path (outer :: others) other

/-- A row with an element added to a collection, in the elements at the positions. -/
inductive Receives (element : Value) (path : String) : String → List EnclosingCollection → List Nat → Row → Row → Prop
  | here {above : String} {items : List Value} {row written : Row}
      (writes : Writes (.list (items ++ [element])) (propertiesBelow path above) (some (.list items)) row written) :
      Receives element path above [] [] row written
  | inside {above : String} {outer : EnclosingCollection} {inner : List EnclosingCollection} {position : Nat}
      {positions : List Nat} {items : List Value} {row written fields changed : Row}
      (within : items[position]? = some (.row fields))
      (below : Receives element path outer.path inner positions fields changed)
      (writes : Writes (.list (items.set position (.row changed))) (propertiesBelow outer.path above)
        (some (.list items)) row written) :
      Receives element path above (outer :: inner) (position :: positions) row written

variable {carrier row written : Row} {element : Value} {path above key other : String}
  {outer : EnclosingCollection} {outers others : List EnclosingCollection} {positions places : List Nat}
  {keys : List String} {a b : Row}

theorem valueAt?_plain (plain : '.' ∉ key.toList) (row : Row) : row.valueAt? (propertiesOf key) = row.get? key := by
  rw [propertiesOf, Path.split_plain plain]
  rfl

theorem isSame_eq_agree (plain : ∀ key ∈ keys, '.' ∉ key.toList) (a b : Row) : isSame keys a b = agree keys a b := by
  rw [isSame, agree, List.all_eq, List.all_eq]
  refine decide_eq_decide.mpr (forall₂_congr fun key member => ?_)
  rw [valueAt?_plain (plain key member), valueAt?_plain (plain key member)]

theorem slot?_of_list {p : List String} {items : List Value}
    (held : (row.valueAt? p).bind Value.asList? = some items) : row.slot? p = some (some (.list items)) := by
  rw [valueAt?_eq] at held
  obtain ⟨value, stands, isList⟩ := Option.bind_eq_some_iff.mp held
  obtain ⟨found, slot, same⟩ := Option.bind_eq_some_iff.mp stands
  cases value with
  | list given =>
      cases isList
      exact slot.trans (congrArg some same)
  | _ => contradiction

theorem list_of_slot? {p : List String} {items : List Value} (slot : row.slot? p = some (some (.list items))) :
    (row.valueAt? p).bind Value.asList? = some items := by
  rw [valueAt?_eq, slot]
  rfl

/-- An element is added at the first elements with the keys that its row carries. -/
theorem addElement_receives (element : Value) {items : List Value} (keyed : AreKeyed outers path)
    (standing : standing? carrier above outers row = some positions)
    (slot : slotAt? path above outers positions row = some (some (.list items))) :
    ∃ written, addElement carrier element path above outers row = some written ∧
      Receives element path above outers positions row written := by
  induction outers generalizing above row positions with
  | nil =>
      cases standing
      obtain ⟨written, writes⟩ := exists_writes slot (.list (items ++ [element]))
      exact ⟨written, writes.alterAt? rfl, .here writes⟩
  | cons outer inner ih =>
      obtain ⟨identity, carried, standing⟩ := Option.bind_eq_some_iff.mp standing
      obtain ⟨elements, held, standing⟩ := Option.bind_eq_some_iff.mp standing
      obtain ⟨⟨position, fields⟩, found, standing⟩ := Option.bind_eq_some_iff.mp standing
      obtain ⟨rest, below, same⟩ := Option.bind_eq_some_iff.mp standing
      cases same
      have within := Value.getElem?_of_findRow? found
      have slot : slotAt? path outer.path inner rest fields = some (some (.list items)) := by
        simpa [slotAt?, held, within, Value.asRow?] using slot
      obtain ⟨changed, added, receives⟩ := ih keyed.2 below slot
      obtain ⟨written, writes⟩ := exists_writes (slot?_of_list held) (.list (elements.set position (.row changed)))
      refine ⟨written, ?_, .inside within receives writes⟩
      obtain ⟨value, carries, isRow⟩ := Option.bind_eq_some_iff.mp carried
      cases value with
      | row given =>
          cases isRow
          rw [addElement, carries]
          refine writes.alterAt? ?_
          have same : agree outer.keys identity = isSame outer.keys identity :=
            funext fun other => (isSame_eq_agree (fun key member => (keyed.1 key member).1) identity other).symm
          dsimp only
          rw [Value.changeFirst?_eq, same, found, Option.bind_some, added]
          rfl
      | _ => contradiction

/-- Nothing is added where no elements have the keys, or there is no row to hold the collection. -/
theorem stands_of_addElement (keyed : AreKeyed outers path)
    (added : addElement carrier element path above outers row = some written) :
    ∃ positions held, standing? carrier above outers row = some positions ∧
      slotAt? path above outers positions row = some held := by
  induction outers generalizing above row written with
  | nil =>
      obtain ⟨held, value, writes, -⟩ := exists_of_alterAt? added
      exact ⟨[], held, rfl, writes.before⟩
  | cons outer inner ih =>
      rw [addElement] at added
      split at added
      next identity carried =>
        obtain ⟨held, value, writes, changed⟩ := exists_of_alterAt? added
        split at changed
        next elements =>
          obtain ⟨items, changed, -⟩ := Option.map_eq_some_iff.mp changed
          have same : agree outer.keys identity = isSame outer.keys identity :=
            funext fun other => (isSame_eq_agree (fun key member => (keyed.1 key member).1) identity other).symm
          rw [Value.changeFirst?_eq, same] at changed
          obtain ⟨⟨position, fields⟩, found, changed⟩ := Option.bind_eq_some_iff.mp changed
          obtain ⟨inside, below, -⟩ := Option.map_eq_some_iff.mp changed
          obtain ⟨rest, slot, stands, there⟩ := ih keyed.2 below
          have list := list_of_slot? writes.before
          refine ⟨position :: rest, slot, ?_, ?_⟩
          · simp [standing?, carried, Value.asRow?, list, found, stands]
          · simp [slotAt?, list, Value.getElem?_of_findRow? found, Value.asRow?, there]
        next => contradiction
      next => contradiction

theorem Receives.writes (receives : Receives element path above outers positions row written) :
    ∃ value held, Writes value (propertiesBelow (nextPath outers path) above) held row written := by
  cases receives with
  | here writes => exact ⟨_, _, writes⟩
  | inside within below writes => exact ⟨_, _, writes⟩

theorem standing?_congr (same : written.valueAt? (propertiesBelow (nextPath others other) above) =
    row.valueAt? (propertiesBelow (nextPath others other) above)) :
    standing? carrier above others written = standing? carrier above others row := by
  cases others with
  | nil => rfl
  | cons outer inner =>
      change written.valueAt? (propertiesBelow outer.path above) = row.valueAt? (propertiesBelow outer.path above) at same
      rw [standing?, standing?, same]

theorem Receives.valueAt?_of_apart (receives : Receives element path above outers positions row written)
    {p : List String} (apart : Apart (propertiesBelow (nextPath outers path) above) p) :
    written.valueAt? p = row.valueAt? p := by
  obtain ⟨value, held, writes⟩ := receives.writes
  rw [valueAt?_eq, valueAt?_eq, writes.slot?_of_apart apart]

theorem Receives.isSame (receives : Receives element path above outers positions row written) (carried : Row)
    (keyed : ∀ key ∈ keys, '.' ∉ key.toList ∧ (propertiesBelow (nextPath outers path) above).head? ≠ some key) :
    Row.isSame keys carried written = Row.isSame keys carried row := by
  obtain ⟨value, held, writes⟩ := receives.writes
  have plain : ∀ key ∈ keys, '.' ∉ key.toList := fun key member => (keyed key member).1
  rw [isSame_eq_agree plain, isSame_eq_agree plain, agree, agree, List.all_eq, List.all_eq]
  refine decide_eq_decide.mpr (forall₂_congr fun key member => ?_)
  rw [writes.get?_of_ne (keyed key member).2]

/-- Rows stand at the same elements after an addition as before, unless it was to a collection on their way. -/
theorem Receives.standing? (receives : Receives element path above outers positions row written)
    (parting : Parting above outers path others other) (keyed : AreKeyed outers path)
    (outside : path ∉ others.map (·.path)) :
    Row.standing? carrier above others written = Row.standing? carrier above others row := by
  induction receives generalizing others with
  | here writes =>
      cases parting with
      | apart apart => exact standing?_congr ((Receives.here writes).valueAt?_of_apart apart)
      | same => rfl
      | inside => exact absurd (List.mem_cons_self ..) outside
  | @inside above outer inner position positions items row written fields changed within below writes ih =>
      cases parting with
      | apart apart => exact standing?_congr ((Receives.inside within below writes).valueAt?_of_apart apart)
      | outside => rfl
      | @along _ _ _ _ _ others parting =>
          have deeper := ih parting keyed.2 fun member => outside (List.mem_cons_of_mem _ member)
          rw [Row.standing?, Row.standing?, list_of_slot? writes.after, list_of_slot? writes.before]
          refine bind_congr fun identity => ?_
          dsimp only [bind, Option.bind_some]
          rw [Value.findRow?_set (below.isSame identity keyed.1) within, Option.bind_map]
          refine Option.bind_congr fun found isFound => ?_
          obtain ⟨place, given⟩ := found
          by_cases here : place = position
          · subst here
            cases (Value.getElem?_of_findRow? isFound).symm.trans within
            simp only [Function.comp_apply, if_true, deeper]
          · simp only [Function.comp_apply, if_neg here]

inductive Effect (element : Value) (path : String) (outers : List EnclosingCollection) (positions : List Nat) (row : Row)
    (above other : String) (others : List EnclosingCollection) (places : List Nat) : Option Value → Prop
  | same {held : Option Value} (before : slotAt? other above others places row = some held)
      (apart : ¬ (others = outers ∧ other = path ∧ places = positions)) :
      Effect element path outers positions row above other others places held
  | grown {items : List Value} (here : others = outers ∧ other = path ∧ places = positions)
      (before : slotAt? other above others places row = some (some (.list items))) :
      Effect element path outers positions row above other others places (some (.list (items ++ [element])))
  | changed {outer : EnclosingCollection} {inner : List EnclosingCollection} {items : List Value} {position : Nat}
      {fields within : Row} {value : Value} {held : Option Value} (through : outers = others ++ outer :: inner)
      (own : outer.path = other) (before : slotAt? other above others places row = some (some (.list items)))
      (found : items[position]? = some (.row fields))
      (writes : Writes value (propertiesBelow (nextPath inner path) other) held fields within) :
      Effect element path outers positions row above other others places
        (some (.list (items.set position (.row within))))
  | entered {outer : EnclosingCollection} {inner : List EnclosingCollection} {further : List Nat} {fields : Row}
      {held : Option Value} (through : others = outers ++ outer :: inner) (own : outer.path = path)
      (isRow : element = .row fields) (stands : slotAt? other path inner further fields = some held) :
      Effect element path outers positions row above other others places held

theorem slotAt?_congr (same : written.slot? (propertiesBelow (nextPath others other) above) =
    row.slot? (propertiesBelow (nextPath others other) above)) :
    slotAt? other above others places written = slotAt? other above others places row := by
  cases others with
  | nil =>
      cases places with
      | nil => exact same
      | cons => rfl
  | cons outer inner =>
      change written.slot? (propertiesBelow outer.path above) = row.slot? (propertiesBelow outer.path above) at same
      cases places with
      | nil => rfl
      | cons place further => rw [slotAt?, slotAt?, valueAt?_eq, valueAt?_eq, same]

theorem slotAt?_cons {items : List Value} (list : row.slot? (propertiesBelow outer.path above) = some (some (.list items)))
    (place : Nat) : slotAt? other above (outer :: others) (place :: places) row =
      (items[place]?.bind Value.asRow?).bind (slotAt? other outer.path others places) := by
  rw [slotAt?, list_of_slot? list]
  rfl

theorem exists_place {held : Option Value} (stands : slotAt? other above (outer :: others) places row = some held) :
    ∃ place further, places = place :: further := by
  cases places with
  | nil => contradiction
  | cons place further => exact ⟨place, further, rfl⟩

theorem Effect.lift {items : List Value} {position : Nat} {fields : Row} {held : Option Value}
    (effect : Effect element path outers positions fields outer.path other others places held)
    (list : row.slot? (propertiesBelow outer.path above) = some (some (.list items)))
    (within : items[position]? = some (.row fields)) :
    Effect element path (outer :: outers) (position :: positions) row above other (outer :: others)
      (position :: places) held := by
  have below : slotAt? other above (outer :: others) (position :: places) row =
      slotAt? other outer.path others places fields := by
    rw [slotAt?_cons list, within]
    rfl
  cases effect with
  | same before apart =>
      refine .same (below.trans before) fun ⟨first, path, second⟩ => apart ⟨?_, path, ?_⟩
      · exact (List.cons.inj first).2
      · exact (List.cons.inj second).2
  | grown here before => exact .grown ⟨by rw [here.1], here.2.1, by rw [here.2.2]⟩ (below.trans before)
  | changed through own before found writes => exact .changed (congrArg _ through) own (below.trans before) found writes
  | entered through own isRow stands => exact .entered (congrArg _ through) own isRow stands

theorem Receives.effect_of_apart (receives : Receives element path above outers positions row written)
    (apart : Apart (propertiesBelow (nextPath outers path) above) (propertiesBelow (nextPath others other) above))
    {held : Option Value} (stands : slotAt? other above others places written = some held) :
    Effect element path outers positions row above other others places held := by
  obtain ⟨value, old, writes⟩ := receives.writes
  refine .same ((slotAt?_congr (writes.slot?_of_apart apart)).symm.trans stands) fun ⟨first, last, _⟩ => ?_
  rw [first, last] at apart
  exact Apart.irrefl apart

/-- The effect of an addition on any of the collections, by the places where the ways to the two part. -/
theorem Receives.effect (receives : Receives element path above outers positions row written)
    (parting : Parting above outers path others other) {held : Option Value}
    (stands : slotAt? other above others places written = some held) :
    Effect element path outers positions row above other others places held := by
  induction receives generalizing others places with
  | @here above items row written writes =>
      cases parting with
      | apart apart => exact effect_of_apart (.here writes) apart stands
      | same =>
          cases places with
          | nil =>
              cases writes.after.symm.trans stands
              exact .grown ⟨rfl, rfl, rfl⟩ writes.before
          | cons => contradiction
      | @inside _ _ outer others =>
          obtain ⟨place, further, rfl⟩ := exists_place stands
          rw [slotAt?_cons writes.after] at stands
          obtain ⟨fields, found, deeper⟩ := Option.bind_eq_some_iff.mp stands
          obtain ⟨item, inside, isRow⟩ := Option.bind_eq_some_iff.mp found
          by_cases old : place < items.length
          · rw [List.getElem?_append_left old] at inside
            refine .same ?_ fun both => List.cons_ne_nil _ _ both.1
            rw [slotAt?_cons writes.before, inside, Option.bind_some, isRow]
            exact deeper
          · have new : [element][place - items.length]? = some item :=
              List.getElem?_append_right (Nat.le_of_not_lt old) ▸ inside
            obtain rfl := List.mem_singleton.mp (List.mem_of_getElem? new)
            cases item with
            | row given =>
                cases isRow
                exact .entered rfl rfl rfl deeper
            | _ => contradiction
  | @inside above outer inner position positions items row written fields changed within below writes ih =>
      cases parting with
      | apart apart => exact effect_of_apart (.inside within below writes) apart stands
      | outside =>
          cases places with
          | nil =>
              cases writes.after.symm.trans stands
              obtain ⟨value, old, inside⟩ := below.writes
              exact .changed rfl rfl writes.before within inside
          | cons => contradiction
      | @along _ _ _ _ _ others parting =>
          obtain ⟨place, further, rfl⟩ := exists_place stands
          rw [slotAt?_cons writes.after] at stands
          by_cases here : place = position
          · subst here
            obtain ⟨bound, -⟩ := List.getElem?_eq_some_iff.mp within
            rw [List.getElem?_set_self bound] at stands
            exact (ih parting stands).lift writes.before within
          · rw [List.getElem?_set_ne (Ne.symm here)] at stands
            refine .same ?_ fun ⟨_, _, same⟩ => here (List.cons.inj same).1
            rw [slotAt?_cons writes.before]
            exact stands

end Row

end ViewEngine
