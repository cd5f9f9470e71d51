import SeaOfNodes.Graph.Basic

/-!
# Views of accesses

An access as a record of its inputs and attributes, read off the graph.  There is a view of an
attached node of the right kind whose mandatory slots are filled, which those of every attached node
are.
-/

namespace SeaOfNodes

/-- An attached read. -/
structure ReadView where
  /-- The node. -/
  id : NodeId
  /-- The control predecessor. -/
  control : NodeId
  /-- The address. -/
  address : NodeId
  /-- Location, barrier, null check and order. -/
  access : Access
  /-- The condition under which the access may execute. -/
  guard : Option NodeId
  /-- The last access of the same location. -/
  lastLocationAccess : Option NodeId
  /-- The stamp of the node. -/
  stamp : Stamp
deriving DecidableEq

/-- An attached write. -/
structure WriteView where
  /-- The node. -/
  id : NodeId
  /-- The control predecessor. -/
  control : NodeId
  /-- The address. -/
  address : NodeId
  /-- The value that is stored. -/
  value : NodeId
  /-- Location, barrier, null check and order. -/
  access : Access
  /-- Whether the location held no valid value before. -/
  initialization : Bool
  /-- The condition under which the access may execute. -/
  guard : Option NodeId
  /-- The frame state after the access. -/
  stateAfter : Option NodeId
  /-- The last access of the same location. -/
  lastLocationAccess : Option NodeId
deriving DecidableEq

namespace WriteView

/-- The kind of the node that is viewed. -/
def kind (view : WriteView) : NodeKind := .write view.access view.initialization

/-- Whether barriers and order have to take a previous value into account. -/
def requiresPriorValue (view : WriteView) : Bool := !view.initialization

/-- Whether the node does more than compute its result. -/
def hasSideEffect (view : WriteView) : Bool := view.kind.hasSideEffect

end WriteView

/-- An attached compare-and-swap. -/
structure SwapView where
  /-- The node. -/
  id : NodeId
  /-- The control predecessor. -/
  control : NodeId
  /-- The object that contains the location. -/
  object : NodeId
  /-- The offset of the location in the object. -/
  offset : NodeId
  /-- The value that the location is expected to hold. -/
  expected : NodeId
  /-- The value to be stored if it does. -/
  newValue : NodeId
  /-- The kind of both values. -/
  valueKind : ValueKind
  /-- The location that is touched. -/
  location : LocationId
  /-- The frame state after the access. -/
  stateAfter : Option NodeId
  /-- The stamp of the node. -/
  stamp : Stamp
deriving DecidableEq

namespace SwapView

/-- The kind of the node that is viewed. -/
def kind (view : SwapView) : NodeKind := .compareAndSwap view.valueKind view.location

/-- Whether the node does more than compute its result. -/
def hasSideEffect (view : SwapView) : Bool := view.kind.hasSideEffect

end SwapView

namespace Graph

/-- The attached node at `id`. -/
def liveNode? (g : Graph) (id : NodeId) : Option Node := (g.node? id).filter Node.isAlive

/-- The read at `id`. -/
def asRead (g : Graph) (id : NodeId) : Option ReadView := do
  let node ← g.liveNode? id
  let .read access := node.kind | none
  let control ← node.input 0
  let address ← node.input 1
  return {
    id, control, address, access
    guard := node.inputOf .guard
    lastLocationAccess := node.inputOf .memory
    stamp := node.stamp }

/-- The write at `id`. -/
def asWrite (g : Graph) (id : NodeId) : Option WriteView := do
  let node ← g.liveNode? id
  let .write access initialization := node.kind | none
  let control ← node.input 0
  let address ← node.input 1
  let value ← node.input 2
  return {
    id, control, address, value, access, initialization
    guard := node.inputOf .guard
    stateAfter := node.inputOf .state
    lastLocationAccess := node.inputOf .memory }

/-- The compare-and-swap at `id`. -/
def asCompareAndSwap (g : Graph) (id : NodeId) : Option SwapView := do
  let node ← g.liveNode? id
  let .compareAndSwap valueKind location := node.kind | none
  let control ← node.input 0
  let object ← node.input 1
  let offset ← node.input 2
  let expected ← node.input 3
  let newValue ← node.input 4
  return {
    id, control, object, offset, expected, newValue, valueKind, location
    stateAfter := node.inputOf .state
    stamp := node.stamp }

end Graph

end SeaOfNodes
