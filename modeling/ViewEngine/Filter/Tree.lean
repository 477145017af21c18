import ViewEngine.Filter.Predicate
import ViewEngine.Schema.Registry
import ViewEngine.Text.Split

/-!
Filter trees: what a view asks for. A node asks for one attribute, with a predicate on a column, an
aggregate of an association, or further nodes below an association. The tree stands on one or several
entities of one table.
-/

namespace ViewEngine

structure FilterItem where
  subject : Attribute
  predicate : Option Predicate := none
  aggregate : Option Aggregate := none
  outputName : Option String := none
  sortAscending : Option Bool := none

structure FilterNode where
  item : FilterItem
  children : List FilterNode := []

namespace FilterItem

def setAggregate (item : FilterItem) (aggregate : Aggregate) : Except CompositionError FilterItem :=
  if item.subject.isAssociation then .ok { item with aggregate := some aggregate }
  else .error (.aggregateOnColumn aggregate item.subject.id)

end FilterItem

namespace FilterNode

def id (n : FilterNode) : AttributeId :=
  n.item.subject.id

def project (a : Attribute) : FilterNode :=
  ⟨{ subject := a }, []⟩

def leaf (a : Attribute) (p : Predicate) : Except CompositionError FilterNode :=
  if a.isAssociation then .error (.predicateOnAssociation a.id)
  else .ok ⟨{ subject := a, predicate := some p }, []⟩

def aggregate (a : Attribute) (aggregate : Aggregate) : Except CompositionError FilterNode := do
  return ⟨← FilterItem.setAggregate { subject := a } aggregate, []⟩

def addChild (registry : Registry) (n child : FilterNode) : Except CompositionError FilterNode :=
  if !n.item.subject.isAssociation then .error (.childOfColumn n.id)
  else
    match registry.targetOf n.item.subject with
    | .error cause => .error (.unresolvedTarget cause)
    | .ok target =>
      if target.carries child.id then .ok { n with children := n.children ++ [child] }
      else .error (.foreignChild child.id target.name n.id)

mutual

def depth : FilterNode → Nat
  | ⟨_, children⟩ => depthOfAll children + 1

def depthOfAll : List FilterNode → Nat
  | [] => 0
  | n :: rest => max n.depth (depthOfAll rest)

end

def modifyAt (change : FilterItem → FilterItem) : List Nat → List FilterNode → List FilterNode
  | [], nodes => nodes
  | [position], nodes => nodes.modify position fun n => { n with item := change n.item }
  | position :: below, nodes =>
    nodes.modify position fun n => { n with children := modifyAt change below n.children }

def itemAt? : List Nat → List FilterNode → Option FilterItem
  | [], _ => none
  | [position], nodes => (nodes[position]?).map (·.item)
  | position :: below, nodes => (nodes[position]?).bind fun n => itemAt? below n.children

/-- Adds a node for the last attribute of a path. Without a predicate, a node that has none either
serves again. -/
def placeLast (last : Attribute) (predicate : Option Predicate) (nodes : List FilterNode) :
    List FilterNode × Except CompositionError (List Nat) :=
  match predicate with
  | some p =>
    match leaf last p with
    | .ok n => (nodes ++ [n], .ok [nodes.length])
    | .error cause => (nodes, .error cause)
  | none =>
    match nodes.findIdx? fun n => n.id == last.id && n.item.predicate.isNone with
    | some position => (nodes, .ok [position])
    | none => (nodes ++ [project last], .ok [nodes.length])

/-- Goes down through nodes for the associations on the way, adding those that are missing, and
yields the address of the last node. What has been added stays, also when the last node is refused. -/
def placeAlong (last : Attribute) (predicate : Option Predicate) :
    List Attribute → List FilterNode → List FilterNode × Except CompositionError (List Nat)
  | [], nodes => placeLast last predicate nodes
  | association :: way, nodes =>
    match nodes.findIdx? (·.id == association.id) with
    | some position =>
      let children := ((nodes[position]?).map (·.children)).getD []
      let (children, address) := placeAlong last predicate way children
      (nodes.modify position fun n => { n with children := children },
        address.map (position :: ·))
    | none =>
      let (children, address) := placeAlong last predicate way []
      (nodes ++ [{ project association with children := children }],
        address.map (nodes.length :: ·))

end FilterNode

structure FilterTree where
  root : Entity
  otherRoots : List Entity
  nodes : List FilterNode := []

namespace FilterTree

def roots (t : FilterTree) : List Entity :=
  t.root :: t.otherRoots

def rootNames (t : FilterTree) : List String :=
  t.roots.map (·.name)

def ofRoots : List Entity → Except SchemaError FilterTree
  | [] => .error .noRoots
  | root :: others =>
    match others.find? (·.table != root.table) with
    | some other => .error (.rootsOnDifferentTables root.name other.name)
    | none => .ok { root := root, otherRoots := others }

def ofNames (registry : Registry) (names : List String) : Except SchemaError FilterTree := do
  ofRoots (← names.mapM registry.entity)

def add (t : FilterTree) (n : FilterNode) : Except SchemaError FilterTree :=
  if t.roots.any (·.carries n.id) then .ok { t with nodes := t.nodes ++ [n] }
  else .error (.attributeNotOnRoots n.id t.rootNames)

def follow (registry : Registry) :
    Attribute → List String → Except SchemaError (List Attribute × Attribute)
  | current, [] => .ok ([], current)
  | current, segment :: rest => do
    let target ← registry.targetOf current
    match target.property? segment with
    | none => .error (.noAttribute target.name segment)
    | some next =>
      let (way, last) ← follow registry next rest
      return (current :: way, last)

def resolve (t : FilterTree) (registry : Registry) (path : String) :
    Except SchemaError (List Attribute × Attribute) :=
  let segments := Text.split '.' path
  match segments with
  | [] => .error (.malformedFilterPath path)
  | first :: rest =>
    if segments.any (·.isEmpty) then .error (.malformedFilterPath path)
    else
      match t.roots.findSome? (·.property? first) with
      | none => .error (.propertyNotOnRoots first t.rootNames)
      | some a => follow registry a rest

def addPath (t : FilterTree) (registry : Registry) (path : String) (predicate : Option Predicate) :
    FilterTree × Except ViewError (List Nat) :=
  match t.resolve registry path with
  | .error cause => (t, .error (.schema cause))
  | .ok (way, last) =>
    let (nodes, address) := FilterNode.placeAlong last predicate way t.nodes
    ({ t with nodes := nodes }, address.mapError .composition)

def modify (t : FilterTree) (address : List Nat) (change : FilterItem → FilterItem) : FilterTree :=
  { t with nodes := FilterNode.modifyAt change address t.nodes }

def item? (t : FilterTree) (address : List Nat) : Option FilterItem :=
  FilterNode.itemAt? address t.nodes

/-- Sets what is given of the rest that a node says; a refused aggregate leaves the node alone. -/
def decorate (t : FilterTree) (address : List Nat) (aggregate : Option Aggregate)
    (outputName : Option String) (sortAscending : Option Bool) :
    FilterTree × Except CompositionError Unit :=
  let named (item : FilterItem) : FilterItem :=
    { item with
      outputName := outputName.or item.outputName
      sortAscending := sortAscending.or item.sortAscending }
  match aggregate, t.item? address with
  | some aggregate, some item =>
    match item.setAggregate aggregate with
    | .ok aggregated => (t.modify address fun _ => named aggregated, .ok ())
    | .error cause => (t, .error cause)
  | _, _ => (t.modify address named, .ok ())

end FilterTree

end ViewEngine
