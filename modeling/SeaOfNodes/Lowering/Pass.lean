import SeaOfNodes.Graph.Verify
import SeaOfNodes.Lowering.Target
import SeaOfNodes.Lowering.Traversal

/-!
# Lowering a whole graph

The pass lowers every lowerable node of a graph with one tool and counts what it did.  The list of
nodes is fixed before the first is lowered; the pass stops at the first node that cannot be lowered,
and then the nodes before it stay lowered.
-/

namespace SeaOfNodes

/-- What a pass did. -/
structure LoweringStats where
  /-- Reads lowered. -/
  reads : Nat := 0
  /-- Writes lowered. -/
  writes : Nat := 0
  /-- Compare-and-swaps lowered. -/
  compareAndSwaps : Nat := 0
  /-- Nodes that expansions list. -/
  nodesCreated : Nat := 0
  /-- Fences among them. -/
  fences : Nat := 0
  /-- Write barriers among them. -/
  barriers : Nat := 0
  /-- Attached nodes before the pass. -/
  initialLive : Nat := 0
  /-- Attached nodes after the pass. -/
  finalLive : Nat := 0
deriving DecidableEq, Inhabited

namespace LoweringStats

/-- How many nodes were lowered. -/
def lowered (stats : LoweringStats) : Nat := stats.reads + stats.writes + stats.compareAndSwaps

/-- Count a node of the given kind as lowered. -/
def countLowered (stats : LoweringStats) : NodeKind → LoweringStats
  | .read _ => { stats with reads := stats.reads + 1 }
  | .write .. => { stats with writes := stats.writes + 1 }
  | .compareAndSwap .. => { stats with compareAndSwaps := stats.compareAndSwaps + 1 }
  | _ => stats

/-- Count a node of the given kind as created. -/
def countCreated (stats : LoweringStats) (kind : NodeKind) : LoweringStats :=
  let stats := { stats with nodesCreated := stats.nodesCreated + 1 }
  match kind with
  | .memoryBarrier _ => { stats with fences := stats.fences + 1 }
  | .writeBarrier _ => { stats with barriers := stats.barriers + 1 }
  | _ => stats

end LoweringStats

variable {σ : Type}

/-- The kind of a node that must exist. -/
def fetchKind (id : NodeId) : ToolM σ NodeKind :=
  (Edit.fetch fun g => (g.node? id).map Node.kind).inTool

/-- Lower the listed nodes in order and count them. -/
def lowerAlong (tool : LoweringTool σ) (stats : LoweringStats) :
    List NodeId → ToolM σ LoweringStats
  | [] => return stats
  | id :: ids => do
    let kind ← fetchKind id
    let replacement ← lowerNode tool id
    let created ← replacement.nodes.mapM fetchKind
    lowerAlong tool (created.foldl LoweringStats.countCreated (stats.countLowered kind)) ids

/-- The pass with a tool, along an order that is computed from the graph. -/
def runPass (config : LoweringConfig) (order : Graph → List NodeId) (tool : LoweringTool σ) :
    ToolM σ LoweringStats := do
  let before ← ToolM.graph
  let stats ← lowerAlong tool { initialLive := before.liveCount } (order before)
  if config.verifyAfterLowering then
    (Edit.ask Graph.verify).inTool
  let after ← ToolM.graph
  return { stats with finalLive := after.liveCount }

/-- A computation of a tool without a memory, as an edit. -/
def ToolM.toEdit {α : Type} (m : ToolM Unit α) : Edit α := fun g =>
  match m.run (g, ()) with
  | .ok a (g', _) => .ok a g'
  | .error e (g', _) => .error e g'

/-- Lower every lowerable node for the configured target, in the configured order. -/
def LoweringConfig.run (config : LoweringConfig) : Edit LoweringStats :=
  (runPass config config.traversal.order config.tool).toEdit

/-- Lower every lowerable node with the default configuration. -/
def lowerMemory : Edit LoweringStats := LoweringConfig.run {}

end SeaOfNodes
