import SeaOfNodes.Graph.Basic
import SeaOfNodes.Violation

/-!
# Checks

Reading the graph before it is changed.  A check answers what the edit needs to know, or the
violation that the edit would commit; it never changes anything, which its type shows.

`Graph.checkInput` is the rule of the graph for a single slot: a filled slot holds an attached node
that allows the role of the slot, and only an optional slot may be empty.
-/

namespace SeaOfNodes

namespace Graph

/-- The node at `id`, whatever its state. -/
def checked (g : Graph) (id : NodeId) : Except Violation Node :=
  match g.node? id with
  | some node => .ok node
  | none => .error (.unknownNode id)

/-- The attached node at `id`. -/
def requireAlive (g : Graph) (id : NodeId) : Except Violation Node := do
  let node ← g.checked id
  if node.isAlive then
    return node
  else
    throw (.notAlive id node.state)

/-- Whether `input` may fill the slot `info` of `user`, a node of kind `kind`. -/
def checkInput (g : Graph) (user : NodeId) (kind : NodeKind) (info : SlotInfo) :
    Option NodeId → Except Violation Unit
  | none =>
    if info.optional then
      return ()
    else
      throw (.mandatoryInputMissing user kind.name info.name)
  | some input => do
    let target ← g.requireAlive input
    if target.kind.allows info.inputType then
      return ()
    else
      throw (.disallowedUsage user input target.kind.name info.inputType)

/-- The description of a slot that must exist. -/
def requireSlot (user : NodeId) (node : Node) (slot : Nat) : Except Violation SlotInfo :=
  match node.slotInfo slot with
  | some info => .ok info
  | none => .error (.arityViolation user node.kind.name slot)

/-- Whether one slot of `node` is described and rightly filled. -/
def checkSlot (g : Graph) (user : NodeId) (node : Node) (slot : Nat) : Except Violation Unit := do
  let info ← requireSlot user node slot
  g.checkInput user node.kind info (node.input slot)

/-- Whether all slots of `node` are described and rightly filled, in order. -/
def checkInputs (g : Graph) (user : NodeId) (node : Node) : Except Violation Unit :=
  (List.range node.slots.length).forM (g.checkSlot user node)

/-- Whether `input` may fill all of the given slots, in order. -/
def checkSites (g : Graph) (input : Option NodeId) (sites : List UseSite) :
    Except Violation Unit :=
  sites.forM fun site => do
    let user ← g.checked site.user
    g.checkInput site.user user.kind site.info input

/-- Whether nothing refers to `id` any more. -/
def checkUnused (g : Graph) (id : NodeId) : Except Violation Unit :=
  if g.usageCount id = 0 then
    return ()
  else
    throw (.danglingUsages id (g.usageCount id))

end Graph

end SeaOfNodes
