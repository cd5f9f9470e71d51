import SeaOfNodes.Graph.Check

/-!
# Verifying a whole graph

`Graph.verify` goes through all nodes in allocation order and answers the first violation it meets:

* the slots of an attached node are described and rightly filled;
* an attached node occurs in the usage list of each of its inputs as often as it has slots with it,
  and every node in its own usage list is attached and has a slot with it;
* a detached node is in no use;
* a node that left the graph is in no use and holds nothing.
-/

namespace SeaOfNodes

namespace Graph

/-- Whether `id` occurs in the usage list of `input` as often as among its inputs. -/
def checkNoted (g : Graph) (id : NodeId) (node : Node) (input : NodeId) :
    Except Violation Unit :=
  if node.inputs.count input = (g.usages input).count id then
    return ()
  else
    throw (.asymmetricEdge id input)

/-- Whether `user`, which is noted as a user of `id`, is attached and has a slot with it. -/
def checkUser (g : Graph) (id user : NodeId) : Except Violation Unit :=
  if (g.node? user).any fun node => node.isAlive && node.inputs.contains id then
    return ()
  else
    throw (.asymmetricEdge user id)

/-- Whether one node keeps the invariants of the graph. -/
def verifyNode (g : Graph) (id : NodeId) (node : Node) : Except Violation Unit :=
  match node.state with
  | .attached => do
    g.checkInputs id node
    node.inputs.forM (g.checkNoted id node)
    (g.usages id).forM (g.checkUser id)
  | .detached => g.checkUnused id
  | .replaced | .deleted =>
    let count := g.usageCount id + node.inputs.length
    if count = 0 then
      return ()
    else
      throw (.danglingUsages id count)

/-- Whether the graph keeps its invariants; answers the first violation. -/
def verify (g : Graph) : Except Violation Unit :=
  g.entries.forM fun (id, node) => g.verifyNode id node

end Graph

end SeaOfNodes
