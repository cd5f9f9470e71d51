import SeaOfNodes.Graph.Basic

/-!
# The graph as text

One line with the number of nodes, then one line for every attached node, with the location that it
touches if it names one.
-/

namespace SeaOfNodes

namespace Graph

/-- The line of one node. -/
def nodeLine (g : Graph) (id : NodeId) (node : Node) : String :=
  "  " ++ id.text ++ ": " ++ node.text ++
    (match node.kind.location with
      | some location => " @ " ++ g.locations.describe location
      | none => "") ++ "\n"

/-- The graph as text; every line ends with a line feed. -/
def text (g : Graph) : String :=
  "graph (" ++ toString g.size ++ " nodes, " ++ toString g.liveCount ++ " alive):\n" ++
    String.join (g.liveNodes.map fun (id, node) => g.nodeLine id node)

end Graph

end SeaOfNodes
