import SeaOfNodes.Graph.Edit

/-!
# Rewiring edges

Edits that change what the slots of attached nodes hold.  Every edit checks all slots that it is
about to change before it changes the first, so that a refused edit leaves the graph as it was, and
changes both sides of each edge together.

The order in which usage lists change can be observed, and is this: slot by slot, the user is taken
off the list of the old target by `swapRemove`, and appended to the list of the new one.
-/

namespace SeaOfNodes

namespace Graph

/-- Whether `input` may be put into a slot of `user`; answers the node of the user. -/
def checkSetInput (g : Graph) (user : NodeId) (slot : Nat) (input : Option NodeId) :
    Except Violation Node := do
  let node ← g.requireAlive user
  let info ← requireSlot user node slot
  g.checkInput user node.kind info input
  return node

/-- Put `input` into a slot and answer what the slot held.  Putting in what it already holds changes
nothing. -/
def setInput (user : NodeId) (slot : Nat) (input : Option NodeId) : Edit (Option NodeId) := do
  let node ← Edit.ask (·.checkSetInput user slot input)
  let old := node.input slot
  if old = input then
    return old
  else if slot < node.slots.length then
    modify (·.relink user slot old input)
    return old
  else
    throw .outOfRange

/-- Whether `input` may become a further value of `user`. -/
def checkAddInput (g : Graph) (user input : NodeId) : Except Violation Unit := do
  let node ← g.requireAlive user
  match node.kind.variadic with
  | some type => g.checkInput user node.kind (NodeKind.tailSlot type) (some input)
  | none => throw (.arityViolation user node.kind.name node.slots.length)

/-- Append `input` to the further values of `user`. -/
def addInput (user input : NodeId) : Edit Unit := do
  Edit.ask (·.checkAddInput user input)
  modify fun g =>
    (g.modifyNode user fun node => { node with slots := node.slots ++ [some input] }).addUse
      input user

/-- What the slot of a further value holds.  The fixed slots are not among them. -/
def checkRemoveInput (g : Graph) (user : NodeId) (slot : Nat) : Except Violation NodeId := do
  let node ← g.requireAlive user
  match node.input slot with
  | some target =>
    if node.kind.layout.length ≤ slot then
      return target
    else
      throw (.arityViolation user node.kind.name slot)
  | none => throw (.arityViolation user node.kind.name slot)

/-- Remove the slot of a further value and answer what it held. -/
def removeInput (user : NodeId) (slot : Nat) : Edit NodeId := do
  let target ← Edit.ask (·.checkRemoveInput user slot)
  modify fun g =>
    (g.modifyNode user fun node => { node with slots := node.slots.eraseIdx slot }).dropUse
      target user
  return target

/-- The slots of `user` that hold `old`, if all of them may hold `new`. -/
def checkReplaceInput (g : Graph) (user old new : NodeId) : Except Violation (List UseSite) := do
  let node ← g.requireAlive user
  let sites := (node.slotsHolding old).map fun (slot, info) => ⟨user, slot, info⟩
  g.checkSites (some new) sites
  return sites

/-- Move every slot of `user` from `old` to `new` and answer how many there are. -/
def replaceInput (user old new : NodeId) : Edit Nat := do
  let sites ← Edit.ask (·.checkReplaceInput user old new)
  modify (·.relinkAll sites (some old) (some new))
  return sites.length

/-- All slots that hold `old`, if all of them may hold `new`. -/
def checkReplaceAtUsages (g : Graph) (old new : NodeId) : Except Violation (List UseSite) := do
  let _ ← g.requireAlive old
  let target ← g.requireAlive new
  let sites := g.usageSites old
  sites.forM fun site =>
    if target.kind.allows site.info.inputType then
      return ()
    else
      throw (.disallowedUsage site.user new target.kind.name site.info.inputType)
  return sites

/-- Move every slot that holds `old` to `new`. -/
def replaceAtUsages (old new : NodeId) : Edit Unit := do
  let sites ← Edit.ask (·.checkReplaceAtUsages old new)
  modify (·.relinkAll sites (some old) (some new))

/-- The slots of role `type` that hold `old`, if all of them may hold `new`. -/
def checkReplaceAtUsagesOfType (g : Graph) (old : NodeId) (type : InputType)
    (new : Option NodeId) : Except Violation (List UseSite) := do
  let _ ← g.requireAlive old
  let sites := (g.usageSites old).filter fun site => site.info.inputType = type
  g.checkSites new sites
  return sites

/-- Move every slot of role `type` that holds `old` to `new`, or empty it, and answer how many there
are. -/
def replaceAtUsagesOfType (old : NodeId) (type : InputType) (new : Option NodeId) : Edit Nat := do
  let sites ← Edit.ask (·.checkReplaceAtUsagesOfType old type new)
  modify (·.relinkAll sites (some old) new)
  return sites.length

end Graph

end SeaOfNodes
