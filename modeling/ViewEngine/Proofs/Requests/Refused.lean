import ViewEngine.Proofs.Compilation.Scoping

namespace ViewEngine

namespace FilterNode

/-- The nodes together with one for each association on a way, where there was none. -/
def openWay : List Attribute → List FilterNode → List FilterNode
  | [], nodes => nodes
  | association :: way, nodes =>
    match nodes.findIdx? (·.id == association.id) with
    | some position => nodes.modify position fun n => { n with children := openWay way n.children }
    | none => nodes ++ [{ project association with children := openWay way [] }]

def hasWay : List Attribute → List FilterNode → Bool
  | [], _ => true
  | association :: way, nodes => (nodes.find? (·.id == association.id)).any fun n => hasWay way n.children

variable {way : List Attribute} {nodes : List FilterNode} {association last : Attribute} {predicate : Option Predicate}
  {cause : CompositionError} {position : Nat} {n : FilterNode} {change : FilterNode → FilterNode} {address : List Nat}
  {item : FilterItem}

theorem modify_congr {other : FilterNode → FilterNode} (found : nodes[position]? = some n) (same : change n = other n) :
    nodes.modify position change = nodes.modify position other := by
  obtain ⟨bound, rfl⟩ := List.getElem?_eq_some_iff.mp found
  rw [List.modify_eq_take_cons_drop bound, List.modify_eq_take_cons_drop bound, same]

theorem modify_eq_iff (found : nodes[position]? = some n) : nodes.modify position change = nodes ↔ change n = n := by
  constructor
  · intro same
    have there := congrArg (·[position]?) same
    simpa [List.getElem?_modify_eq, found] using there
  · exact fun same => (modify_congr found same).trans (List.modify_id ..)

theorem exists_of_findIdx? {p : FilterNode → Bool} (found : nodes.findIdx? p = some position) :
    ∃ n, nodes[position]? = some n := by
  obtain ⟨bound, -⟩ := List.findIdx?_eq_some_iff_getElem.mp found
  exact ⟨_, List.getElem?_eq_getElem bound⟩

theorem openWay_eq_iff : openWay way nodes = nodes ↔ hasWay way nodes = true := by
  induction way generalizing nodes with
  | nil => exact iff_of_true rfl rfl
  | cons association way ih =>
      unfold openWay hasWay
      rw [List.find?_eq_bind_findIdx?_getElem?]
      split
      next position found =>
        obtain ⟨n, there⟩ := exists_of_findIdx? found
        rw [modify_eq_iff there, found, Option.bind_some, there, Option.any_some, ← ih]
        cases n
        exact ⟨congrArg FilterNode.children, congrArg (FilterNode.mk _)⟩
      next absent =>
        rw [absent, Option.bind_none, Option.any_none]
        simp

theorem itemAt?_modify {children : List FilterNode → List FilterNode} (position : Nat)
    (inside : ∀ below nodes, itemAt? below nodes = some item → itemAt? below (children nodes) = some item)
    (found : itemAt? address nodes = some item) :
    itemAt? address (nodes.modify position fun n => { n with children := children n.children }) = some item := by
  match address with
  | [] => contradiction
  | [there] =>
      obtain ⟨n, stands, isItem⟩ := Option.map_eq_some_iff.mp found
      simp only [itemAt?, List.getElem?_modify, stands]
      split <;> exact congrArg some isItem
  | there :: next :: below =>
      obtain ⟨n, stands, isItem⟩ := Option.bind_eq_some_iff.mp found
      simp only [itemAt?, List.getElem?_modify, stands]
      split
      · exact inside _ _ isItem
      · exact isItem

theorem itemAt?_append (others : List FilterNode) (found : itemAt? address nodes = some item) :
    itemAt? address (nodes ++ others) = some item := by
  have kept {position : Nat} {n : FilterNode} (there : nodes[position]? = some n) :
      (nodes ++ others)[position]? = some n := by
    obtain ⟨bound, -⟩ := List.getElem?_eq_some_iff.mp there
    rwa [List.getElem?_append_left bound]
  match address with
  | [] => contradiction
  | [position] =>
      obtain ⟨n, there, isItem⟩ := Option.map_eq_some_iff.mp found
      rw [itemAt?, kept there, Option.map_some, isItem]
  | position :: next :: below =>
      obtain ⟨n, there, isItem⟩ := Option.bind_eq_some_iff.mp found
      simp only [itemAt?, kept there, Option.bind_some, isItem]

theorem itemAt?_openWay (found : itemAt? address nodes = some item) :
    itemAt? address (openWay way nodes) = some item := by
  induction way generalizing nodes address with
  | nil => exact found
  | cons association way ih =>
      unfold openWay
      split
      · exact itemAt?_modify _ (fun _ _ => ih) found
      · exact itemAt?_append _ found

theorem placeLast_refused (refused : (placeLast last predicate nodes).2 = .error cause) :
    (placeLast last predicate nodes).1 = nodes ∧ predicate.isSome = true ∧ last.isAssociation = true ∧
      cause = .predicateOnAssociation last.id := by
  unfold placeLast leaf at refused ⊢
  cases predicate with
  | none =>
      simp only at refused
      split at refused <;> contradiction
  | some p =>
      by_cases isAssociation : last.isAssociation = true
      · simp only [if_pos isAssociation, Except.error.injEq] at refused ⊢
        exact ⟨trivial, rfl, isAssociation, refused.symm⟩
      · simp only [if_neg isAssociation] at refused
        contradiction

theorem error_of_map {α β ε : Type} {outcome : Except ε α} {f : α → β} {cause : ε}
    (failed : outcome.map f = .error cause) : outcome = .error cause := by
  cases outcome with
  | error other => exact congrArg Except.error (Except.error.inj failed)
  | ok result => contradiction

theorem placeAlong_refused (refused : (placeAlong last predicate way nodes).2 = .error cause) :
    (placeAlong last predicate way nodes).1 = openWay way nodes ∧ predicate.isSome = true ∧
      last.isAssociation = true ∧ cause = .predicateOnAssociation last.id := by
  induction way generalizing nodes with
  | nil => exact placeLast_refused refused
  | cons association way ih =>
      unfold placeAlong at refused ⊢
      unfold openWay
      cases found : nodes.findIdx? (·.id == association.id) with
      | some position =>
          obtain ⟨n, there⟩ := exists_of_findIdx? found
          simp only [found, there, Option.map_some, Option.getD_some] at refused ⊢
          obtain ⟨opened, asked⟩ := ih (error_of_map refused)
          rw [opened]
          exact ⟨modify_congr there rfl, asked⟩
      | none =>
          simp only [found] at refused ⊢
          obtain ⟨opened, asked⟩ := ih (error_of_map refused)
          rw [opened]
          exact ⟨rfl, asked⟩

end FilterNode

section

variable {registry : Registry} {t : FilterTree} {path : String} {predicate : Option Predicate} {cause : ViewError}

/-- A path that is refused leaves the tree alone, unless it puts a predicate on an association: then there is a node
for each association on the way to it. What the nodes say is not changed, but the tree is as before only if none of
those on the way was missing. -/
theorem refused_path_opens_way (refused : (t.addPath registry path predicate).2 = .error cause) :
    ((t.addPath registry path predicate).1 = t ∧
        ∃ reason, t.resolve registry path = .error reason ∧ cause = .schema reason) ∨
      ∃ way last, t.resolve registry path = .ok (way, last) ∧ predicate.isSome = true ∧ last.isAssociation = true ∧
        cause = .composition (.predicateOnAssociation last.id) ∧
        (t.addPath registry path predicate).1 = { t with nodes := FilterNode.openWay way t.nodes } ∧
        (∀ address item, t.item? address = some item →
          (t.addPath registry path predicate).1.item? address = some item) ∧
        ((t.addPath registry path predicate).1 = t ↔ FilterNode.hasWay way t.nodes = true) := by
  unfold FilterTree.addPath at refused ⊢
  cases resolved : t.resolve registry path with
  | error reason =>
      simp only [resolved] at refused ⊢
      exact .inl ⟨trivial, reason, rfl, (Except.error.inj refused).symm⟩
  | ok found =>
      obtain ⟨way, last⟩ := found
      simp only [resolved] at refused ⊢
      refine .inr ⟨way, last, rfl, ?_⟩
      cases outcome : (FilterNode.placeAlong last predicate way t.nodes).2 with
      | ok address => simp [outcome, Except.mapError] at refused
      | error reason =>
          obtain ⟨opened, asked, isAssociation, rfl⟩ := FilterNode.placeAlong_refused outcome
          simp only [outcome, Except.mapError, Except.error.injEq] at refused
          refine ⟨asked, isAssociation, refused.symm, by rw [opened], fun address item found => ?_, ?_⟩
          · rw [opened]
            exact FilterNode.itemAt?_openWay found
          · rw [opened, ← FilterNode.openWay_eq_iff]
            exact ⟨congrArg FilterTree.nodes, fun same => by rw [same]⟩

end

namespace Outline

def idsOnly : Outline :=
  { orders with requests := [⟨"id", none⟩], chains := [] }

def wanted : Predicate :=
  ⟨.equals, .int 7, none⟩

def refusesProduct (registry : Registry) (t : FilterTree) (v : CompiledView) : Bool :=
  let tried := t.addPath registry "lines.product" (some wanted)
  decide (tried.2 = .error (.composition (.predicateOnAssociation ⟨"Line", "product"⟩))) &&
    (t.resolve registry "lines.product").toOption.any (fun found => !FilterNode.hasWay found.1 t.nodes) &&
    v.subSelects.map (·.path) == [] &&
    (compile registry {} .sqlite none {} tried.1).toOption.any fun w => w.subSelects.map (·.path) == ["lines"]

set_option maxRecDepth 100000 in
/-- A product cannot be compared with a value. Yet the lines of the orders are fetched from then on. -/
theorem refused_predicate_fetches_lines : ∃ registry t v w, idsOnly.compiled? = some (registry, t, v) ∧
    (t.addPath registry "lines.product" (some wanted)).2 =
      .error (.composition (.predicateOnAssociation ⟨"Line", "product"⟩)) ∧
    (t.addPath registry "lines.product" (some wanted)).1 ≠ t ∧
    compile registry {} .sqlite none {} t = .ok v ∧
    compile registry {} .sqlite none {} (t.addPath registry "lines.product" (some wanted)).1 = .ok w ∧
    v.subSelects.map (·.path) = [] ∧ w.subSelects.map (·.path) = ["lines"] := by
  have checked : (idsOnly.compiled?.map fun c => refusesProduct c.1 c.2.1 c.2.2) = some true := by
    decide +kernel
  obtain ⟨⟨registry, t, v⟩, found, checked⟩ := Option.map_eq_some_iff.mp checked
  obtain ⟨-, -, compiled⟩ := compiled_eq found
  simp only [refusesProduct, Bool.and_eq_true, decide_eq_true_eq, Option.any_eq_true, beq_iff_eq,
    Bool.not_eq_true'] at checked
  obtain ⟨⟨⟨refused, ⟨way, last⟩, resolved, absent⟩, none⟩, w, recompiled, lines⟩ := checked
  obtain ⟨-, reason, failed, -⟩ | ⟨other, target, again, -, -, -, -, -, unchanged⟩ := refused_path_opens_way refused
  · rw [failed] at resolved
    cases resolved
  · rw [again] at resolved
    cases resolved
    refine ⟨registry, t, v, w, found, refused, fun same => ?_, compiled,
      eq_ok_of_toOption recompiled, none, lines⟩
    rw [unchanged.mp same] at absent
    cases absent

end Outline

end ViewEngine
