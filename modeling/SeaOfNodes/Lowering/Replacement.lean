import SeaOfNodes.Graph.Remove
import SeaOfNodes.Graph.Rewire
import SeaOfNodes.Memory.Effect

/-!
# Replacing a node by its expansion

Lowering replaces one node by several.  A replacement names, for each role in which the node was
used, the node of the expansion that takes over, and lists what the expansion consists of.

`Graph.checkReplacement` decides whether a replacement is acceptable: every usage has a target that
allows it, and what the node killed is still killed by the expansion.  `Graph.substitute` carries it
out: it moves the usages, retires the node and marks the expansion.  `Graph.discardSince` takes back
an expansion that was not accepted.
-/

namespace SeaOfNodes

/-- What takes the place of a lowered node. -/
structure Replacement where
  /-- What control continues from: the last fixed node of the expansion. -/
  control : Option NodeId := none
  /-- What computes the value. -/
  value : Option NodeId := none
  /-- What later accesses name as the last access of the location. -/
  memory : Option NodeId := none
  /-- What guards dependent nodes. -/
  guard : Option NodeId := none
  /-- The nodes of the expansion, the fixed ones in control order. -/
  nodes : List NodeId := []
deriving DecidableEq, Inhabited

/-- The node that takes over the usages of one role.  Nothing takes over states and addresses: no
lowerable node can be used as either. -/
def Replacement.target (r : Replacement) : InputType → Option NodeId
  | .control => r.control
  | .value => r.value
  | .memory => r.memory
  | .guard => r.guard
  | .state | .address => none

namespace Graph

/-! ## Acceptance -/

/-- Whether one usage of `id` has a target that allows it. -/
def checkTarget (g : Graph) (id : NodeId) (r : Replacement) (site : UseSite) :
    Except Violation Unit :=
  match r.target site.info.inputType with
  | none => throw (.missingReplacement id site.info.inputType)
  | some target => do
    let node ← g.requireAlive target
    if node.kind.allows site.info.inputType then
      return ()
    else
      throw (.disallowedUsage site.user target node.kind.name site.info.inputType)

/-- What a list of nodes kills together, if any of them is a checkpoint. -/
def jointCheckpoint (g : Graph) (nodes : List NodeId) : Option Checkpoint :=
  Checkpoint.joinAll (nodes.filterMap g.checkpoint?)

/-- Whether the listed nodes kill all that `killed` does. -/
def killsAll (g : Graph) (nodes : List NodeId) (killed : Checkpoint) : Bool :=
  (g.jointCheckpoint nodes).any fun joint =>
    killed.locations.all fun location => joint.covers g.locations location

/-- Whether the replacement of `id` is acceptable, where `killed` is what `id` kills. -/
def checkReplacement (g : Graph) (id : NodeId) (killed : Option Checkpoint) (r : Replacement) :
    Except Violation Unit := do
  (g.usageSites id).forM (g.checkTarget id r)
  if killed.all (g.killsAll r.nodes) then
    return ()
  else
    throw (.missingReplacement id .memory)

/-! ## Substitution -/

/-- Move the usages of `id` in the given roles to their targets, role by role. -/
def moveUsages (id : NodeId) (r : Replacement) : List InputType → Edit Unit
  | [] => return ()
  | type :: types => do
    match r.target type with
    | some target =>
      let _ ← replaceAtUsagesOfType id type (some target)
      moveUsages id r types
    | none => moveUsages id r types

/-- The roles in which `id` is used. -/
def usedRoles (g : Graph) (id : NodeId) : List InputType :=
  InputType.all.filter fun type => (g.usageSites id).any fun site => site.info.inputType = type

/-- Mark those of the listed nodes that are attached as created by an expansion. -/
def markLowered (g : Graph) (nodes : List NodeId) : Graph :=
  nodes.foldl (fun g id =>
    if g.isAlive id then
      g.modifyNode id fun node => { node with flags := { node.flags with lowered := true } }
    else g) g

/-- Put the replacement into the place of `id`. -/
def substitute (id : NodeId) (r : Replacement) : Edit Unit := do
  let g ← get
  moveUsages id r (g.usedRoles id)
  retire id
  modify (·.markLowered r.nodes)

/-! ## Taking back -/

/-- Delete `id` if it is attached and in no use. -/
def discard (g : Graph) (id : NodeId) : Graph :=
  if g.isAlive id && (g.usages id).isEmpty then g.bury id .deleted else g

/-- Delete what was allocated since the graph had `mark` nodes, the newest first. -/
def discardSince (g : Graph) (mark : Nat) : Graph :=
  (g.ids.drop mark).reverse.foldl discard g

end Graph

end SeaOfNodes
