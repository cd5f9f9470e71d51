import SeaOfNodes.Graph.Check
import SeaOfNodes.Memory.Effect

/-!
# Exchanging the order of two nodes

Whether two nodes may change places as far as memory is concerned.  They may not

* when one names the other as the last access of its location,
* when one is volatile and both touch memory, or
* when the alias oracle cannot tell two of the touched locations apart.

The last point holds for loads too: two reads of one location keep their order.  A node that touches
no memory is not ordered by memory at all.
-/

namespace SeaOfNodes

namespace Graph

/-- Whether the node at `id` names `other` as the last access of its location. -/
def witnesses (g : Graph) (id other : NodeId) : Bool :=
  (g.memoryAccess? id).any fun access => access.lastLocationAccess = some other

/-- Whether the node at `id` is a volatile access. -/
def isVolatile (g : Graph) (id : NodeId) : Bool :=
  (g.memoryAccess? id).any fun access => access.order.isVolatile

/-- Whether the oracle tells all that `a` touches apart from all that `b` touches. -/
def footprintsDisjoint (g : Graph) (a b : NodeId) (oracle : AliasOracle) : Bool :=
  (g.footprint a).all fun la => (g.footprint b).all fun lb => oracle.canReorder g.locations la lb

/-- Whether two attached nodes may exchange their order. -/
def canReorder (g : Graph) (a b : NodeId) (oracle : AliasOracle) : Except Violation Bool := do
  let _ ← g.requireAlive a
  let _ ← g.requireAlive b
  if a = b then
    return false
  else if (g.footprint a).isEmpty || (g.footprint b).isEmpty then
    return true
  else if g.witnesses a b || g.witnesses b a then
    return false
  else if g.isVolatile a || g.isVolatile b then
    return false
  else
    return g.footprintsDisjoint a b oracle

end Graph

end SeaOfNodes
