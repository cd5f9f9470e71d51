import SeaOfNodes.Lowering.Replacement

/-!
# Lowering with a tool

A tool builds the expansion of one node and reports what takes the node's place.  It changes the
graph as it likes, by edits, and may have a memory of its own that lasts from call to call.

`lowerNode` lowers one node with a tool.  When the tool refuses, or its replacement is not
acceptable, what was allocated since the call is taken back and no usage has been moved.
-/

namespace SeaOfNodes

/-- A computation of a tool with memory `σ`: it changes the graph and its memory, and may fail. -/
abbrev ToolM (σ α : Type) : Type := EStateM Fault (Graph × σ) α

/-- A tool with memory `σ`: it expands one node. -/
abbrev LoweringTool (σ : Type) : Type := NodeId → ToolM σ Replacement

variable {σ α : Type}

/-- An edit as a computation of a tool; it leaves the memory alone. -/
def Edit.inTool (edit : Edit α) : ToolM σ α := fun (g, memory) =>
  match edit.run g with
  | .ok a g' => .ok a (g', memory)
  | .error e g' => .error e (g', memory)

namespace ToolM

/-- The graph as it is now. -/
def graph : ToolM σ Graph := return (← get).1

/-- Take back what was allocated since the graph had `mark` nodes, if a request is refused. -/
def orDiscard (mark : Nat) (m : ToolM σ α) : ToolM σ α := fun s =>
  match m.run s with
  | .error (.violation v) (g, memory) => .error (.violation v) (g.discardSince mark, memory)
  | result => result

end ToolM

/-- A tool without a memory. -/
def LoweringTool.ofEdit (expand : NodeId → Edit Replacement) : LoweringTool Unit :=
  fun id => (expand id).inTool

namespace Graph

/-- Whether `id` is an attached node that lowering replaces; answers what it kills. -/
def requireLowerable (g : Graph) (id : NodeId) : Except Violation (Option Checkpoint) := do
  let node ← g.requireAlive id
  if node.kind.isLowerable then
    return g.checkpoint? id
  else
    throw (.unexpectedKind id "lowerable node" node.kind.name)

end Graph

/-- Replace the lowerable node `id` by the expansion that the tool builds. -/
def lowerNode (tool : LoweringTool σ) (id : NodeId) : ToolM σ Replacement := do
  let killed ← (Edit.ask (·.requireLowerable id)).inTool
  let mark := (← ToolM.graph).size
  let replacement ← ToolM.orDiscard mark do
    let replacement ← tool id
    (Edit.ask (·.checkReplacement id killed replacement)).inTool
    return replacement
  (Graph.substitute id replacement).inTool
  return replacement

end SeaOfNodes
