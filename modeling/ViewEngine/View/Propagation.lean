import ViewEngine.View.Write

/-!
Keeping join columns equal on both sides of an association. Where the column of the upper node is no
primary key it takes the value of the lower node, otherwise the lower node takes that of the upper one.
-/

namespace ViewEngine

/-- Runs steps in turn. The first that fails is the last; what was changed before stays changed. -/
def runSteps {α σ ε : Type} (step : α → σ → σ × Except ε Unit) : List α → σ → σ × Except ε Unit
  | [], state => (state, .ok ())
  | item :: rest, state =>
    match step item state with
    | (state, .ok ()) => runSteps step rest state
    | failed => failed

namespace ViewRow

/-- What a node holds under a property, if there is the node and the property. -/
def held (r : ViewRow) (node property : String) : Except ViewError (Option Value) :=
  (r.data.nodeAt node).map (·.bind (·.get? property))

def propagatePair (strict : Bool) (entry : JoinEntry) (path node : String) (pair : JoinColumn)
    (r : ViewRow) : ViewRow × Except ViewError Unit :=
  match entry.sourceEntity.column? pair.source, entry.entity.column? pair.target with
  | none, _ => (r, reportUnresolved strict path pair.source)
  | some _, none => (r, reportUnresolved strict path pair.target)
  | some upper, some lower =>
    if upper.primaryKey && lower.primaryKey then (r, .ok ())
    else
      let above := Path.node node
      match r.held node lower.property, r.held above upper.property with
      | .error e, _ | .ok _, .error e => (r, .error e)
      | .ok lowerValue, .ok upperValue =>
        if Value.equalSlots lowerValue upperValue then (r, .ok ())
        else if upper.primaryKey then
          match upperValue with
          | some value => r.assign node lower.property value
          | none => (r, .ok ())
        else
          match lowerValue with
          | some value => r.assign above upper.property value
          | none => (r, .ok ())

def propagateNode (strict : Bool) (plan : JoinPlan) (node : String) (r : ViewRow) :
    ViewRow × Except ViewError Unit :=
  let path := Path.withoutPositions node
  match plan.atPath? path with
  | none => (r, reportUnresolved strict path node)
  | some entry => runSteps (propagatePair strict entry path node) entry.subject.joinColumns r

def changedNodes (r : ViewRow) : Names :=
  (Names.ofList (r.changed.map Path.node)).filter (!·.isEmpty)

def propagate (strict : Bool) (plan : JoinPlan) (r : ViewRow) : ViewRow × Except ViewError Unit :=
  runSteps (propagateNode strict plan) r.changedNodes r

def propagateAll (strict : Bool) (plan : JoinPlan) :
    List ViewRow → List ViewRow × Except ViewError Unit
  | [] => ([], .ok ())
  | r :: rest =>
    let (r, outcome) := if r.isNew then (r, .ok ()) else r.propagate strict plan
    match outcome with
    | .ok () => (propagateAll strict plan rest).map (r :: ·) id
    | .error e => (r :: rest, .error e)

end ViewRow

end ViewEngine
