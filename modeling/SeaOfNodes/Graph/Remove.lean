import SeaOfNodes.Graph.Edit

/-!
# Leaving the graph

A node leaves the graph for good, as deleted or as replaced, and only when nothing refers to it.
Its own edges are taken back on both sides, and it keeps its place in the arena without slots.
-/

namespace SeaOfNodes

namespace Graph

/-- Take the edges of a node back and give it its final state.  A detached node has no edges: its
slots are dropped without telling anyone. -/
def bury (g : Graph) (id : NodeId) (state : NodeState) : Graph :=
  let severed := if g.isAlive id then g.severInputs id else g
  severed.modifyNode id fun node => { node with slots := [], state := state }

/-- Whether the node at `id` may be deleted. -/
def checkDelete (g : Graph) (id : NodeId) : Except Violation Unit := do
  let node ← g.checked id
  match node.state with
  | .detached => return ()
  | .attached => g.checkUnused id
  | .replaced | .deleted => throw (.notAlive id node.state)

/-- Delete a node that nothing refers to, attached or not. -/
def delete (id : NodeId) : Edit Unit := do
  Edit.ask (·.checkDelete id)
  modify (·.bury id .deleted)

/-- Whether the node at `id` may be given up as replaced. -/
def checkRetire (g : Graph) (id : NodeId) : Except Violation Unit := do
  let _ ← g.requireAlive id
  g.checkUnused id

/-- Give an attached node up as replaced once nothing refers to it. -/
def retire (id : NodeId) : Edit Unit := do
  Edit.ask (·.checkRetire id)
  modify (·.bury id .replaced)

end Graph

end SeaOfNodes
