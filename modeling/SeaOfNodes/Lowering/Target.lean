import SeaOfNodes.Access.Request
import SeaOfNodes.Access.View
import SeaOfNodes.Lowering.Config
import SeaOfNodes.Lowering.Tool

/-!
# Expansions for the target machine

What reads, writes and compare-and-swaps become on a machine.  An expansion is a block of fixed
nodes that is spliced in behind the control predecessor of the lowered node: steps before the
access, the access itself, and steps after it.

* A write: null check, barrier that logs the previous value, release fence, **raw store**, barrier
  that marks the card, full fence.
* A read: null check, **raw load**, acquire fence.
* A compare-and-swap: release fence, **atomic swap**, full fence, where the swap is a retry loop;
  the swap alone elsewhere.

All steps but the access depend on the attributes of the node and on the configuration.  Release and
acquire fences are needed on weakly ordered machines only, the full fence after a volatile store
everywhere.

## Design notes

A block is a list of steps before anything is built (`writeBlock`, `readBlock`, `swapBlock`), so
that what an access expands to can be read off without running an edit.  The null check is the first
node of its block; its id is therefore the next id of the graph, and the access can name it as its
guard before it exists.
-/

namespace SeaOfNodes

/-- A fixed node to be built: its inputs are the control predecessor and then the operands. -/
structure Step where
  /-- What the node is. -/
  kind : NodeKind
  /-- What its result is. -/
  stamp : Stamp
  /-- The inputs after control. -/
  operands : List (Option NodeId)
deriving DecidableEq

namespace Step

/-- A null check of `object`. -/
def nullCheck (object : Option NodeId) : Step := ⟨.nullCheck, .void, [object]⟩

/-- A fence. -/
def fence (fence : Fence) : Step := ⟨.memoryBarrier fence, .void, []⟩

/-- A write barrier for `address`, of the stored value if the barrier looks at it. -/
def barrier (barrier : WriteBarrier) (address : NodeId) (value : Option NodeId) : Step :=
  ⟨.writeBarrier barrier, .void, [some address, value]⟩

end Step

/-- The fixed nodes of an expansion, in control order. -/
structure Block where
  /-- The steps before the access. -/
  before : List Step
  /-- The access. -/
  access : Step
  /-- The steps after the access. -/
  after : List Step
deriving DecidableEq

/-- All steps in control order. -/
def Block.steps (block : Block) : List Step := block.before ++ block.access :: block.after

/-- What was built for a block. -/
structure Emitted where
  /-- The node of the access. -/
  access : NodeId
  /-- The last node of the block. -/
  tail : NodeId
  /-- All nodes in control order. -/
  nodes : List NodeId
deriving DecidableEq

namespace Graph

/-- Build one step behind `control`. -/
def emitStep (control : NodeId) (step : Step) : Edit NodeId :=
  add (.withInputs step.kind step.stamp (some control :: step.operands))

/-- Build steps one behind the other, the first behind `control`. -/
def emitSteps (control : NodeId) : List Step → Edit (List NodeId)
  | [] => return []
  | step :: steps => do
    let id ← emitStep control step
    let ids ← emitSteps id steps
    return id :: ids

/-- Build a block behind `control`. -/
def emitBlock (control : NodeId) (block : Block) : Edit Emitted := do
  let before ← emitSteps control block.before
  let access ← emitStep (before.getLastD control) block.access
  let after ← emitSteps access block.after
  return { access, tail := after.getLastD access, nodes := before ++ access :: after }

end Graph

namespace LoweringConfig

/-! ## Blocks -/

/-- What is emitted when `condition` holds. -/
def stepIf (condition : Bool) (step : Step) : List Step := if condition then [step] else []

/-- The block of a write.  `object` is the base of the address, `check` the id of the null check if
there is one, and `kind` the kind of value at the location. -/
def writeBlock (config : LoweringConfig) (w : WriteView) (kind : ValueKind)
    (object check : Option NodeId) : Block where
  before :=
    stepIf w.access.nullCheck (.nullCheck object) ++
    (config.preBarrier w.access.barrier w.initialization).toList.map
      (Step.barrier · w.address none) ++
    stepIf (w.access.order.isVolatile && !config.platform.isTso) (.fence .release)
  access :=
    ⟨.rawStore ⟨w.access.location, kind, w.access.order⟩, .void,
      [some w.address, some w.value, check.or w.guard, w.lastLocationAccess, w.stateAfter]⟩
  after :=
    (config.postBarrier w.access.barrier).toList.map (Step.barrier · w.address (some w.value)) ++
    stepIf w.access.order.isVolatile (.fence .full)

/-- The block of a read. -/
def readBlock (config : LoweringConfig) (r : ReadView) (kind : ValueKind)
    (object check : Option NodeId) : Block where
  before := stepIf r.access.nullCheck (.nullCheck object)
  access :=
    ⟨.rawLoad ⟨r.access.location, kind, r.access.order⟩, r.stamp,
      [some r.address, check.or r.guard, r.lastLocationAccess]⟩
  after := stepIf (r.access.order.isVolatile && !config.platform.isTso) (.fence .acquire)

/-- Whether a swap needs fences around it. -/
def fencesSwap (config : LoweringConfig) : Bool :=
  config.platform.swapStrategy = .loadLinkedStoreConditional

/-- The block of a compare-and-swap at `address`. -/
def swapBlock (config : LoweringConfig) (s : SwapView) (address : NodeId) : Block where
  before := stepIf config.fencesSwap (.fence .release)
  access :=
    ⟨.atomicCas s.valueKind s.location config.platform.swapStrategy, .swapResult,
      [some address, some s.expected, some s.newValue, s.stateAfter]⟩
  after := stepIf config.fencesSwap (.fence .full)

/-! ## Expansions -/

/-- The view of a node that should be of the kind `expected`. -/
def requireView {α : Type} (id : NodeId) (expected : String) (view : Graph → Option α)
    (g : Graph) : Except Violation α :=
  match view g with
  | some v => .ok v
  | none =>
    .error (.unexpectedKind id expected
      (match g.node? id with
        | some node => node.kind.name
        | none => "unknown"))

/-- Build the expansion of a write. -/
def expandWrite (config : LoweringConfig) (id : NodeId) : Edit Replacement := do
  let w ← Edit.ask (requireView id "Write" (·.asWrite id))
  let g ← get
  let check := if w.access.nullCheck then some g.nextId else none
  let kind := g.locations.accessKind w.access.location
  let emitted ← Graph.emitBlock w.control
    (config.writeBlock w kind (g.input w.address 0) check)
  return {
    control := emitted.tail, memory := emitted.access, guard := check, nodes := emitted.nodes }

/-- Build the expansion of a read. -/
def expandRead (config : LoweringConfig) (id : NodeId) : Edit Replacement := do
  let r ← Edit.ask (requireView id "Read" (·.asRead id))
  let g ← get
  let check := if r.access.nullCheck then some g.nextId else none
  let kind := g.locations.accessKind r.access.location
  let emitted ← Graph.emitBlock r.control
    (config.readBlock r kind (g.input r.address 0) check)
  return {
    control := emitted.tail, value := emitted.access, memory := emitted.access, guard := check
    nodes := emitted.nodes }

/-- Build the expansion of a compare-and-swap.  A floating node computes its address first. -/
def expandSwap (config : LoweringConfig) (id : NodeId) : Edit Replacement := do
  let s ← Edit.ask (requireView id "CompareAndSwap" (·.asCompareAndSwap id))
  let address ← Graph.offsetAddress s.object s.offset
  let emitted ← Graph.emitBlock s.control (config.swapBlock s address)
  return {
    control := emitted.tail, value := emitted.access, memory := emitted.access
    nodes := address :: emitted.nodes }

/-- Build the expansion of an attached access. -/
def expand (config : LoweringConfig) (id : NodeId) : Edit Replacement := do
  let node ← Edit.ask (·.requireAlive id)
  match node.kind with
  | .write .. => config.expandWrite id
  | .read _ => config.expandRead id
  | .compareAndSwap .. => config.expandSwap id
  | kind => Edit.refuse (.unexpectedKind id "lowerable node" kind.name)

/-- The tool that lowers for the configured target. -/
def tool (config : LoweringConfig) : LoweringTool Unit := .ofEdit config.expand

end LoweringConfig

end SeaOfNodes
