import SeaOfNodes.Storage.SideTable
import SeaOfNodes.Storage.SwapRemove
import SeaOfNodes.Node.Basic

/-!
# The graph

A sea of nodes: the nodes of one compilation unit, connected by typed input edges.  The edges are
kept twice.  Every node lists what it refers to in its input slots, and the graph lists for every
node who refers to it, once per slot.  That the two agree is the graph's main invariant.

## Main definitions

* `Graph` — nodes, usage lists, locations, the start node.
* `Graph.usages`, `Graph.users` — who refers to a node, per slot and without repetitions.
* `Graph.usageSites` — the slots that hold a node, with their descriptions.

## Design notes

A graph is a value.  An edit is a function from graphs to graphs, so that two graphs, before and
after, can be compared; nothing else remembers the past.  Nodes are never removed from the arena: a
node that leaves the graph changes its state.
-/

namespace SeaOfNodes

/-- A graph of nodes, with the usage lists of all nodes. -/
structure Graph where
  /-- Every node that was ever allocated. -/
  nodes : Arena NodeTag Node
  /-- For every node the nodes that refer to it, once per slot. -/
  uses : SideTable NodeTag (List NodeId)
  /-- The locations that the nodes touch. -/
  locations : LocationUniverse
  /-- The entry of control. -/
  start : NodeId
  /-- The bytecode index of the nodes to be created next. -/
  nextBci : UInt32
deriving DecidableEq

/-- A slot of a node of the graph, with its description. -/
structure UseSite where
  /-- The node that has the slot. -/
  user : NodeId
  /-- The position of the slot. -/
  slot : Nat
  /-- The description of the slot. -/
  info : SlotInfo
deriving DecidableEq

namespace Graph

/-- The node that every graph begins with. -/
def startNode : Node := { Node.new .start .control with state := .attached }

/-- The graph that holds the start node only. -/
def new : Graph where
  nodes := Arena.empty.push startNode
  uses := .empty
  locations := .new
  start := ⟨0⟩
  nextBci := 0

instance : Inhabited Graph := ⟨new⟩

/-! ## Nodes -/

/-- The node at `id`, alive or not. -/
def node? (g : Graph) (id : NodeId) : Option Node := g.nodes.get? id

/-- How many nodes were ever allocated. -/
def size (g : Graph) : Nat := g.nodes.size

/-- Whether there is nothing but the start node. -/
def isEmpty (g : Graph) : Bool := g.size ≤ 1

/-- The id of the node to be allocated next. -/
def nextId (g : Graph) : NodeId := g.nodes.nextId

/-- The ids of all nodes, in allocation order. -/
def ids (g : Graph) : List NodeId := g.nodes.ids

/-- All nodes with their ids, in allocation order. -/
def entries (g : Graph) : List (NodeId × Node) := g.nodes.entries

/-- Whether a node belongs to the graph. -/
def state? (g : Graph) (id : NodeId) : Option NodeState := (g.node? id).map Node.state

/-- Whether `id` is a node of the graph that is attached. -/
def isAlive (g : Graph) (id : NodeId) : Bool := (g.node? id).any Node.isAlive

/-- The attached nodes, in allocation order. -/
def liveNodes (g : Graph) : List (NodeId × Node) := g.entries.filter fun entry => entry.2.isAlive

/-- How many nodes are attached. -/
def liveCount (g : Graph) : Nat := g.liveNodes.length

/-- What a slot holds. -/
def input (g : Graph) (id : NodeId) (slot : Nat) : Option NodeId :=
  (g.node? id).bind (·.input slot)

/-- Whether `id` may be referred to in the role `type`. -/
def allowsUsage (g : Graph) (id : NodeId) (type : InputType) : Bool :=
  (g.node? id).any (·.kind.allows type)

/-! ## Usages -/

/-- The nodes that refer to `id`, once per slot, in the order that edits left them. -/
def usages (g : Graph) (id : NodeId) : List NodeId := g.uses.find id

/-- How many slots hold `id`. -/
def usageCount (g : Graph) (id : NodeId) : Nat := (g.usages id).length

/-- The nodes that refer to `id`, each once, in the order of their first usage. -/
def users (g : Graph) (id : NodeId) : List NodeId := (g.usages id).eraseDups

/-- The slots that hold `target`: the users in order, and the slots of each in order. -/
def usageSites (g : Graph) (target : NodeId) : List UseSite :=
  (g.users target).flatMap fun user =>
    match g.node? user with
    | some node => (node.slotsHolding target).map fun (slot, info) => ⟨user, slot, info⟩
    | none => []

/-! ## Control flow -/

/-- The control predecessor of a fixed node. -/
def controlPredecessor (g : Graph) (id : NodeId) : Option NodeId :=
  (g.node? id).bind Node.controlInput

/-- The fixed nodes that follow `id` in control flow, in the order of their first usage. -/
def controlSuccessors (g : Graph) (id : NodeId) : List NodeId :=
  (g.users id).filter fun user =>
    (g.node? user).any fun node => node.kind.isFixed && node.input 0 = some id

/-! ## Elementary changes

None of these keeps the invariant of the graph on its own; edits are built from them. -/

/-- Change the node at `id`. -/
def modifyNode (g : Graph) (id : NodeId) (f : Node → Node) : Graph :=
  { g with nodes := g.nodes.modify id f }

/-- Note at `target` that `user` has one more slot with it. -/
def addUse (g : Graph) (target user : NodeId) : Graph :=
  { g with uses := g.uses.modify target (· ++ [user]) }

/-- Note at `target` that `user` has one slot less with it. -/
def dropUse (g : Graph) (target user : NodeId) : Graph :=
  { g with uses := g.uses.modify target (swapRemove user) }

/-- Put `input` into a slot, without telling its target. -/
def putSlot (g : Graph) (user : NodeId) (slot : Nat) (input : Option NodeId) : Graph :=
  g.modifyNode user fun node => { node with slots := node.slots.set slot input }

/-- Move a slot of `user` from `old` to `new`, on both sides of the edge. -/
def relink (g : Graph) (user : NodeId) (slot : Nat) (old new : Option NodeId) : Graph :=
  let dropped := match old with
    | some target => g.dropUse target user
    | none => g
  let put := dropped.putSlot user slot new
  match new with
  | some target => put.addUse target user
  | none => put

/-- Move several slots from `old` to `new`, in order. -/
def relinkAll (g : Graph) (sites : List UseSite) (old new : Option NodeId) : Graph :=
  sites.foldl (fun g site => g.relink site.user site.slot old new) g

/-- Note at the targets of all inputs of `id` that it uses them. -/
def registerInputs (g : Graph) (id : NodeId) : Graph :=
  match g.node? id with
  | some node => node.inputs.foldl (fun g target => g.addUse target id) g
  | none => g

/-- Take `id` off the usage lists of its inputs and drop its slots. -/
def severInputs (g : Graph) (id : NodeId) : Graph :=
  match g.node? id with
  | some node =>
    (node.inputs.foldl (fun g target => g.dropUse target id) g).modifyNode id
      fun node => { node with slots := [] }
  | none => g

/-- Allocate a node. -/
def allocate (g : Graph) (node : Node) : Graph := { g with nodes := g.nodes.push node }

end Graph

end SeaOfNodes
