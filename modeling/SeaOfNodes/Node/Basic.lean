import SeaOfNodes.Node.Layout
import SeaOfNodes.Value.Stamp

/-!
# Nodes

A node has a kind, a stamp and a list of input slots, each empty or holding the id of another node.
Whether it belongs to the graph is its state: it is attached, or not yet, or no more.

A node that is not attached holds what it was built with, and nobody has checked that; only the
slots of attached nodes are edges of the graph.
-/

namespace SeaOfNodes

/-- The tag of node ids. -/
inductive NodeTag : Type

/-- The id of a node in its graph. -/
abbrev NodeId := ArenaId NodeTag

/-- Whether a node belongs to the graph. -/
inductive NodeState where
  /-- Allocated but not inserted. -/
  | detached
  /-- Alive in the graph. -/
  | attached
  /-- Lowered, and kept for diagnostics only. -/
  | replaced
  /-- Removed. -/
  | deleted
deriving DecidableEq, Inhabited

namespace NodeState

/-- Whether the node is part of the graph. -/
def isAlive : NodeState → Bool
  | attached => true
  | _ => false

/-- The state as it is written in messages. -/
def name : NodeState → String
  | detached => "Detached"
  | attached => "Attached"
  | replaced => "Replaced"
  | deleted => "Deleted"

@[simp] theorem isAlive_iff (state : NodeState) : state.isAlive = true ↔ state = attached := by
  cases state <;> simp [isAlive]

end NodeState

/-- The marks that passes leave on a node. -/
structure NodeFlags where
  /-- The node was created by an expansion. -/
  lowered : Bool := false
  /-- The node stays at its place in control flow even if it could float. -/
  pinned : Bool := false
deriving DecidableEq, Inhabited

/-- A node of the graph. -/
structure Node where
  /-- What the node is. -/
  kind : NodeKind
  /-- What its result is. -/
  stamp : Stamp
  /-- The input slots: the fixed ones of the kind, then the further values. -/
  slots : List (Option NodeId)
  /-- Whether the node belongs to the graph. -/
  state : NodeState
  /-- The index of the bytecode that the node stems from. -/
  bci : UInt32
  /-- The marks of passes. -/
  flags : NodeFlags
deriving DecidableEq

namespace Node

/-- A detached node with the given inputs.  They fill the fixed slots in order and go on past them;
fixed slots without an input stay empty. -/
def withInputs (kind : NodeKind) (stamp : Stamp) (inputs : List (Option NodeId)) : Node where
  kind := kind
  stamp := stamp
  slots := inputs ++ List.replicate (kind.layout.length - inputs.length) none
  state := .detached
  bci := 0
  flags := {}

/-- A detached node with every fixed slot empty. -/
def new (kind : NodeKind) (stamp : Stamp) : Node := withInputs kind stamp []

/-- Whether the node is part of the graph. -/
def isAlive (node : Node) : Bool := node.state.isAlive

/-- What the slot holds; nothing if it is empty or does not exist. -/
def input (node : Node) (slot : Nat) : Option NodeId := (node.slots[slot]?).join

/-- The present inputs in slot order. -/
def inputs (node : Node) : List NodeId := node.slots.filterMap id

/-- The description of a slot: of the layout, or of a further value that exists. -/
def slotInfo (node : Node) (slot : Nat) : Option SlotInfo :=
  match node.kind.layout[slot]? with
  | some info => some info
  | none => if slot < node.slots.length then node.kind.variadic.map NodeKind.tailSlot else none

/-- What the slot that a node has for a role holds. -/
def inputOf (node : Node) (type : InputType) : Option NodeId :=
  (node.kind.slotOf type).bind node.input

/-- The slots that hold `target`, in order, with their descriptions. -/
def slotsHolding (node : Node) (target : NodeId) : List (Nat × SlotInfo) :=
  (List.range node.slots.length).filterMap fun slot =>
    if node.input slot = some target then (node.slotInfo slot).map (slot, ·) else none

/-- The control predecessor: what a fixed node holds in slot 0. -/
def controlInput (node : Node) : Option NodeId :=
  if node.kind.isFixed then node.input 0 else none

/-- The slots as text: `#3` for a filled slot and `-` for an empty one. -/
def slotsText (slots : List (Option NodeId)) : String :=
  ", ".intercalate (slots.map fun | some id => id.text | none => "-")

/-- The node as text: `Return [#3, -] : control (Attached)`, without the brackets if it has no
slots. -/
def text (node : Node) : String :=
  node.kind.name ++
    (if node.slots.isEmpty then "" else " [" ++ slotsText node.slots ++ "]") ++
    " : " ++ node.stamp.text ++ " (" ++ node.state.name ++ ")"

theorem length_slots_withInputs (kind : NodeKind) (stamp : Stamp) (inputs : List (Option NodeId)) :
    (withInputs kind stamp inputs).slots.length = max inputs.length kind.layout.length := by
  simp only [withInputs, List.length_append, List.length_replicate]
  omega

theorem mem_inputs (node : Node) (target : NodeId) :
    target ∈ node.inputs ↔ some target ∈ node.slots := by
  simp [inputs]

end Node

end SeaOfNodes
