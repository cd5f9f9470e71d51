import SeaOfNodes.Graph.Rewire

/-!
# The optional edges of accesses

An access may have a frame state after it, a witness of the last access of its location, and a
guard.  Passes attach and clear these edges one by one.  Each has a role of its own, and
`NodeKind.slotOf` knows in which slot a node of a kind keeps the edge of this role.
-/

namespace SeaOfNodes

namespace Graph

/-- The slot of role `type` of an attached node; `expected` names what the node should be. -/
def requireSlotOf (g : Graph) (id : NodeId) (type : InputType) (expected : String) :
    Except Violation Nat := do
  let node ← g.requireAlive id
  match node.kind.slotOf type with
  | some slot => return slot
  | none => throw (.unexpectedKind id expected node.kind.name)

/-- Attach, or clear, the frame state after a write; answers the previous one. -/
def setStateAfter (id : NodeId) (state : Option NodeId) : Edit (Option NodeId) := do
  let slot ← Edit.ask (·.requireSlotOf id .state "state split")
  setInput id slot state

/-- Attach, or clear, the witness of the last access of the location; answers the previous one. -/
def setLastLocationAccess (id : NodeId) (access : Option NodeId) : Edit (Option NodeId) := do
  let slot ← Edit.ask (·.requireSlotOf id .memory "memory access")
  setInput id slot access

/-- Attach, or clear, the guard of an access; answers the previous one. -/
def setGuard (id : NodeId) (guard : Option NodeId) : Edit (Option NodeId) := do
  let slot ← Edit.ask (·.requireSlotOf id .guard "fixed access")
  setInput id slot guard

end Graph

end SeaOfNodes
