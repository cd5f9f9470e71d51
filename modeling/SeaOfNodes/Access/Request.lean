import SeaOfNodes.Graph.Create

/-!
# Building accesses

Reads, writes and compare-and-swaps are built from requests, which name all of their inputs and
attributes.  Before a node is created the request is checked against the location that it touches:

* the location is known, and the address has the stamp of an address;
* a location inside an object is addressed from a reference;
* what is stored fits what the location is declared to hold, and the operands of a swap fit each
  other as well.

A request that fails leaves the graph as it was.
-/

namespace SeaOfNodes

/-- What a read is built from. -/
structure ReadRequest where
  /-- The control predecessor. -/
  control : NodeId
  /-- The address that is read. -/
  address : NodeId
  /-- The location that is touched. -/
  location : LocationId
  /-- The condition under which the access may execute. -/
  guard : Option NodeId := none
  /-- The last access of the same location. -/
  lastLocationAccess : Option NodeId := none
  /-- Whether the access checks its base for null. -/
  nullCheck : Bool := false
  /-- The order that the access asks for. -/
  order : MemoryOrder := .plain
deriving DecidableEq

/-- What a write is built from. -/
structure WriteRequest where
  /-- The control predecessor. -/
  control : NodeId
  /-- The address that is written. -/
  address : NodeId
  /-- The location that is touched. -/
  location : LocationId
  /-- The value that is stored. -/
  value : NodeId
  /-- The barrier that the heap model selected. -/
  barrier : BarrierType := .none
  /-- Whether the location held no valid value before. -/
  initialization : Bool := false
  /-- The condition under which the access may execute. -/
  guard : Option NodeId := none
  /-- The frame state after the write. -/
  stateAfter : Option NodeId := none
  /-- The last access of the same location. -/
  lastLocationAccess : Option NodeId := none
  /-- Whether the access checks its base for null. -/
  nullCheck : Bool := false
  /-- The order that the access asks for. -/
  order : MemoryOrder := .plain
deriving DecidableEq

/-- What a compare-and-swap is built from. -/
structure SwapRequest where
  /-- The control predecessor. -/
  control : NodeId
  /-- The object that contains the location. -/
  object : NodeId
  /-- The offset of the location in the object. -/
  offset : NodeId
  /-- The value that the location is expected to hold. -/
  expected : NodeId
  /-- The value to be stored if it does. -/
  newValue : NodeId
  /-- The kind of both values. -/
  valueKind : ValueKind
  /-- The location that is touched. -/
  location : LocationId
  /-- The frame state after the swap. -/
  stateAfter : Option NodeId := none
deriving DecidableEq

/-- Whether a value of the given stamp can be stored at a location: it fits the declared kind, or is
some value if none is declared. -/
def LocationIdentity.accepts (identity : LocationIdentity) (stamp : Stamp) : Bool :=
  match identity.valueKind with
  | some kind => stamp.compatible (.onStack kind)
  | none => stamp.isValue

/-- The kind of the values at a location; a machine word if none is declared. -/
def LocationUniverse.accessKind (u : LocationUniverse) (location : LocationId) : ValueKind :=
  (u.valueKind location).getD .long

namespace Graph

/-! ## Checks against the location -/

/-- The identity of the location that `node` is to touch. -/
def requireLocation (g : Graph) (node : NodeId) (location : LocationId) :
    Except Violation LocationIdentity :=
  match g.locations.get? location with
  | some identity => .ok identity
  | none => .error (.accessLayout node "access" .illegal (g.locations.describe location))

/-- Whether a location can be addressed from `base`: inside an object, from a reference only. -/
def checkBase (g : Graph) (base : NodeId) (identity : LocationIdentity) :
    Except Violation Unit := do
  let node ← g.requireAlive base
  if identity.isHeap && !node.stamp.isObject then
    throw (.accessLayout base "base" node.stamp identity.text)
  else
    return ()

/-- Whether `address` is an address for the location.  The base is known only of an address that is
a base and an offset. -/
def checkAddress (g : Graph) (address : NodeId) (location : LocationId) :
    Except Violation Unit := do
  let identity ← g.requireLocation address location
  let node ← g.requireAlive address
  if node.stamp ≠ .address then
    throw (.accessLayout address "address" node.stamp identity.text)
  else
    match node.kind, node.input 0 with
    | .offsetAddress, some base => g.checkBase base identity
    | _, _ => return ()

/-- Whether `value` can be stored at the location. -/
def checkValue (g : Graph) (value : NodeId) (location : LocationId) : Except Violation Unit := do
  let identity ← g.requireLocation value location
  let node ← g.requireAlive value
  if identity.accepts node.stamp then
    return ()
  else
    throw (.accessLayout value "value" node.stamp identity.text)

/-- Whether the operands of a swap fit each other, the kind that is swapped and the location. -/
def checkSwap (g : Graph) (request : SwapRequest) : Except Violation Unit := do
  let swapped := Stamp.onStack request.valueKind
  let expected ← g.requireAlive request.expected
  let newValue ← g.requireAlive request.newValue
  if !expected.stamp.compatible newValue.stamp then
    throw (.incompatibleStamps expected.stamp newValue.stamp)
  if !expected.stamp.compatible swapped then
    throw (.accessLayout request.expected "expected value" expected.stamp
      (g.locations.describe request.location))
  let identity ← g.requireLocation request.object request.location
  if (identity.valueKind.any fun kind => !(Stamp.onStack kind).compatible swapped) then
    throw (.accessLayout request.expected "value kind" expected.stamp identity.text)
  g.checkBase request.object identity
  let offset ← g.requireAlive request.offset
  if !offset.stamp.isInteger then
    throw (.accessLayout request.offset "offset" offset.stamp identity.text)

/-! ## Nodes of requests -/

/-- The node of a read.  Its stamp is that of the location's values on the operand stack. -/
def readNode (g : Graph) (request : ReadRequest) : Node :=
  .withInputs
    (.read ⟨request.location, .none, request.nullCheck, request.order⟩)
    (.onStack (g.locations.accessKind request.location))
    [some request.control, some request.address, request.guard, request.lastLocationAccess]

/-- The node of a write. -/
def writeNode (request : WriteRequest) : Node :=
  .withInputs
    (.write ⟨request.location, request.barrier, request.nullCheck, request.order⟩
      request.initialization)
    .void
    [some request.control, some request.address, some request.value, request.guard,
      request.stateAfter, request.lastLocationAccess]

/-- The node of a compare-and-swap. -/
def swapNode (request : SwapRequest) : Node :=
  .withInputs (.compareAndSwap request.valueKind request.location) .swapResult
    [some request.control, some request.object, some request.offset, some request.expected,
      some request.newValue, request.stateAfter]

/-! ## Edits -/

/-- Build a read. -/
def addRead (request : ReadRequest) : Edit NodeId := do
  Edit.ask (·.checkAddress request.address request.location)
  let g ← get
  add (g.readNode request)

/-- Build a write. -/
def addWrite (request : WriteRequest) : Edit NodeId := do
  Edit.ask (·.checkAddress request.address request.location)
  Edit.ask (·.checkValue request.value request.location)
  add (writeNode request)

/-- Build a compare-and-swap. -/
def addCompareAndSwap (request : SwapRequest) : Edit NodeId := do
  Edit.ask (·.checkSwap request)
  add (swapNode request)

end Graph

end SeaOfNodes
