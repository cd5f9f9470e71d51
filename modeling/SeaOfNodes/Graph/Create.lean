import SeaOfNodes.Graph.Edit

/-!
# Creating nodes

A node enters the graph in one step (`Graph.add`), or in two: it is allocated first
(`Graph.addDetached`) and inserted later (`Graph.attach`).  Either way its inputs are checked when
it is inserted, and its edges are entered into the usage lists of its inputs.

A node without slots cannot be refused, so that constants and parameters are created without a
check.
-/

namespace SeaOfNodes

namespace Graph

/-- Allocate `node` as attached and enter its edges. -/
def insert (g : Graph) (node : Node) : Graph :=
  (g.allocate { node with bci := g.nextBci, state := .attached }).registerInputs g.nextId

/-- Check and insert a node; nothing is allocated if it is refused. -/
def add (node : Node) : Edit NodeId := do
  Edit.ask fun g => g.checkInputs g.nextId node
  modifyGet fun g => (g.nextId, g.insert node)

/-- Allocate a node without inserting it. -/
def addDetached (node : Node) : Edit NodeId :=
  modifyGet fun g => (g.nextId, g.allocate { node with bci := g.nextBci, state := .detached })

/-- Whether the detached node at `id` may be inserted. -/
def checkAttach (g : Graph) (id : NodeId) : Except Violation Unit := do
  let node ← g.checked id
  if node.state = .detached then
    g.checkInputs id node
  else
    throw (.invalidState id node.state .detached)

/-- Check and insert a detached node. -/
def attach (id : NodeId) : Edit Unit := do
  Edit.ask (·.checkAttach id)
  modify fun g =>
    (g.modifyNode id fun node => { node with state := .attached }).registerInputs id

/-- Insert a node of a kind without slots. -/
def addLeaf (kind : NodeKind) (stamp : Stamp) : Edit NodeId :=
  modifyGet fun g =>
    (g.nextId,
      g.allocate { Node.new kind stamp with bci := g.nextBci, state := .attached })

/-- Choose the bytecode index of the nodes to be created from now on. -/
def setBci (bci : UInt32) : Edit Unit := modify fun g => { g with nextBci := bci }

/-! ## Leaves -/

/-- A parameter. -/
def parameter (index : UInt16) (stamp : Stamp) : Edit NodeId := addLeaf (.parameter index) stamp

/-- An integer constant, as wide as a value of `kind` on the operand stack. -/
def constInt (value : Int64) (kind : ValueKind) : Edit NodeId :=
  addLeaf (.constInt value) (.onStack kind)

/-- The null reference. -/
def constNull : Edit NodeId := addLeaf .constNull (.ofKind .object)

/-! ## Nodes with inputs -/

/-- The allocation of an object of `size` bytes after `control`. -/
def newInstance (control : NodeId) (size : UInt32) : Edit NodeId :=
  add (.withInputs (.newInstance size) (.object true) [some control])

/-- The address at `offset` from `base`. -/
def offsetAddress (base offset : NodeId) : Edit NodeId :=
  add (.withInputs .offsetAddress .address [some base, some offset])

/-- The frame state at `bci` with the given live values. -/
def frameState (bci : UInt32) (values : List NodeId) : Edit NodeId :=
  add (.withInputs (.frameState bci) .state (values.map some))

/-- The guard, after `control`, that `object` is not null. -/
def nullCheckGuard (control object : NodeId) : Edit NodeId :=
  add (.withInputs .nullCheckGuard .void [some control, some object])

/-- The return after `control`, of a value if there is one. -/
def returnValue (control : NodeId) (value : Option NodeId) : Edit NodeId :=
  add (.withInputs .ret .control [some control, value])

/-! ## Locations and marks -/

/-- Compute with the locations of the graph, which may intern new ones. -/
def withLocations {α : Type} (f : LocationUniverse → α × LocationUniverse) : Edit α :=
  modifyGet fun g =>
    let (a, locations) := f g.locations
    (a, { g with locations := locations })

/-- Intern a location of the graph. -/
def internLocation (identity : LocationIdentity) : Edit LocationId :=
  withLocations (·.intern identity)

/-- Replace the marks of a node that must exist. -/
def setFlags (id : NodeId) (flags : NodeFlags) : Edit Unit := do
  let _ ← Edit.fetch (·.node? id)
  modify fun g => g.modifyNode id fun node => { node with flags := flags }

/-- Change the bytecode index of a node that must exist. -/
def setNodeBci (id : NodeId) (bci : UInt32) : Edit Unit := do
  let _ ← Edit.fetch (·.node? id)
  modify fun g => g.modifyNode id fun node => { node with bci := bci }

end Graph

end SeaOfNodes
