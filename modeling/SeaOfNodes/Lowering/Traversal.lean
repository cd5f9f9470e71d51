import SeaOfNodes.Graph.Basic
import SeaOfNodes.Lowering.Config
import SeaOfNodes.Storage.BitSet

/-!
# The order of lowering

The nodes to be lowered are chosen, and put in order, before the first is lowered.  So no node of an
expansion is visited, and every lowerable node is visited once.

In **control-flow order** a node comes after the nodes before it in control flow.  The order is that
of a depth-first search along control successors, in reverse postorder; lowerable nodes that the
search does not reach follow in allocation order.  In **creation order** all come in allocation
order.

## Design notes

The search keeps its path explicitly, as the nodes that it has entered and the successors of each
that it has still to look at.  A node is finished, and put before all that were finished earlier,
when no successor is left; that makes the list of finished nodes the reverse postorder at any time.
Every step takes something off what is left to do (`unseenCost`, `pathCost`), and so the search ends
on every graph.
-/

namespace SeaOfNodes

namespace Graph

/-- Whether `id` is an attached node that lowering replaces. -/
def isLowerable (g : Graph) (id : NodeId) : Bool :=
  (g.node? id).any fun node => node.isAlive && node.kind.isLowerable

/-- The lowerable nodes in allocation order. -/
def lowerables (g : Graph) : List NodeId := g.ids.filter g.isLowerable

/-! ## Depth-first search -/

/-- A node that the search has entered, and the successors that it has still to look at. -/
abbrev Frame : Type := NodeId × List NodeId

/-- What it takes to search from one node: entering it, looking at each of its successors, and
finishing it. -/
def visitCost (g : Graph) (id : NodeId) : Nat := (g.controlSuccessors id).length + 2

/-- What it takes to search from the listed nodes, except those that were seen. -/
def unseenCost (g : Graph) (seen : BitSet) : List NodeId → Nat
  | [] => 0
  | id :: ids => (if seen.contains id.index then 0 else g.visitCost id) + g.unseenCost seen ids

/-- What it takes to finish the nodes of a path, apart from entering others. -/
def pathCost : List Frame → Nat
  | [] => 0
  | (_, rest) :: path => rest.length + 1 + pathCost path

/-- Seeing more nodes costs nothing. -/
theorem unseenCost_insert_le (g : Graph) (seen : BitSet) (i : Nat) (ids : List NodeId) :
    g.unseenCost (seen.insert i) ids ≤ g.unseenCost seen ids := by
  induction ids with
  | nil => exact Nat.le_refl _
  | cons id ids ih =>
    simp only [unseenCost, BitSet.contains_insert, Bool.or_eq_true]
    grind

/-- Entering a node takes its cost off what is left. -/
theorem unseenCost_insert (g : Graph) (seen : BitSet) {id : NodeId} {ids : List NodeId}
    (hmem : id ∈ ids) (hnew : seen.contains id.index = false) :
    g.unseenCost (seen.insert id.index) ids + g.visitCost id ≤ g.unseenCost seen ids := by
  induction ids with
  | nil => cases hmem
  | cons other ids ih =>
    rw [unseenCost, unseenCost, BitSet.contains_insert]
    rcases List.mem_cons.mp hmem with rfl | hrest
    · have := g.unseenCost_insert_le seen id.index ids
      simp [hnew]
      omega
    · have := ih hrest
      grind

/-- Search from the path on.  Answers the finished nodes, the last finished first, and all that were
seen. -/
def search (g : Graph) (seen : BitSet) (finished : List NodeId) :
    List Frame → List NodeId × BitSet
  | [] => (finished, seen)
  | (id, []) :: path => g.search seen (id :: finished) path
  | (id, next :: rest) :: path =>
    if next.index < g.size ∧ seen.contains next.index = false then
      g.search (seen.insert next.index) finished
        ((next, g.controlSuccessors next) :: (id, rest) :: path)
    else
      g.search seen finished ((id, rest) :: path)
termination_by path => g.unseenCost seen g.ids + pathCost path
decreasing_by
  · simp [pathCost]
  · next h =>
    have := g.unseenCost_insert seen ((g.nodes.mem_ids next).mpr h.1) h.2
    simp only [ids, visitCost, pathCost, List.length_cons] at this ⊢
    omega
  · simp [pathCost]

/-- The search from the start node: the nodes that it reaches in reverse postorder, and the set of
them. -/
def searchFromStart (g : Graph) : List NodeId × BitSet :=
  g.search ((BitSet.withCapacity g.size).insert g.start.index) []
    [(g.start, g.controlSuccessors g.start)]

/-- The lowerable nodes in control-flow order. -/
def controlFlowOrder (g : Graph) : List NodeId :=
  let (reached, seen) := g.searchFromStart
  reached.filter g.isLowerable ++ g.lowerables.filter fun id => !seen.contains id.index

end Graph

/-- The lowerable nodes of a graph in the order of the traversal. -/
def Traversal.order : Traversal → Graph → List NodeId
  | controlFlow, g => g.controlFlowOrder
  | creation, g => g.lowerables

end SeaOfNodes
