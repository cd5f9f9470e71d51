import SeaOfNodes.Graph.Basic
import SeaOfNodes.Location.Checkpoint

/-!
# Memory effects

What a node does to memory, as a function of its kind and slots.  A **checkpoint** kills locations;
an **access** loads or stores through an address, and may name the node that last touched its
location.  A write is both, a load only an access, a fence only a checkpoint.

The effect of a node does not depend on whether it is attached: also a node that left the graph can
be asked what it killed.
-/

namespace SeaOfNodes

/-- Whether an access loads or stores. -/
inductive AccessDirection where
  | load
  | store
deriving DecidableEq, Inhabited

/-- A memory access of a node. -/
structure MemoryAccess where
  /-- The node that accesses memory. -/
  node : NodeId
  /-- Whether it loads or stores. -/
  direction : AccessDirection
  /-- The location that is touched. -/
  location : LocationId
  /-- The address. -/
  address : Option NodeId
  /-- The node known to have touched the location last.  Without one, only control flow orders the
  access. -/
  lastLocationAccess : Option NodeId
  /-- The order that the access asks for. -/
  order : MemoryOrder
deriving DecidableEq

/-- Whether the access is a load. -/
def MemoryAccess.isLoad (access : MemoryAccess) : Bool := access.direction = .load

namespace NodeKind

/-- The location that a node of this kind kills, if it kills any. -/
def kills : NodeKind → Option LocationId
  | start | memoryBarrier _ => some LocationUniverse.anyId
  | newInstance _ => some LocationUniverse.initId
  | write access _ => some access.location
  | compareAndSwap _ location | atomicCas _ location _ => some location
  | rawStore access => some access.location
  | _ => none

/-- Direction, location and order of the access that a node of this kind performs. -/
def accesses : NodeKind → Option (AccessDirection × LocationId × MemoryOrder)
  | read access => some (.load, access.location, access.order)
  | write access _ => some (.store, access.location, access.order)
  | rawLoad access => some (.load, access.location, access.order)
  | rawStore access => some (.store, access.location, access.order)
  | _ => none

end NodeKind

namespace Graph

/-- The locations that the node at `id` kills, if it is a checkpoint. -/
def checkpoint? (g : Graph) (id : NodeId) : Option Checkpoint := do
  let node ← g.node? id
  let location ← node.kind.kills
  return .single location

/-- The access that the node at `id` performs. -/
def memoryAccess? (g : Graph) (id : NodeId) : Option MemoryAccess := do
  let node ← g.node? id
  let (direction, location, order) ← node.kind.accesses
  return {
    node := id, direction, location, order
    address := node.input 1
    lastLocationAccess := node.inputOf .memory }

/-- The locations that the node at `id` kills or accesses. -/
def footprint (g : Graph) (id : NodeId) : List LocationId :=
  let killed := match g.checkpoint? id with
    | some checkpoint => checkpoint.locations
    | none => []
  match g.memoryAccess? id with
  | some access => if access.location ∈ killed then killed else killed ++ [access.location]
  | none => killed

end Graph

end SeaOfNodes
