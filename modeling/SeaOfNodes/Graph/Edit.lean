import SeaOfNodes.Graph.Check

/-!
# Edits

An edit changes the graph, or fails and says why.  It is a computation over a graph that keeps the
graph when it fails, so that what a failed edit has done to the graph is part of its meaning.

The edits of this library read first and write afterwards: `Edit.ask` consults the graph without
changing it, and once nothing can fail any more the graph is changed in one go.  Edits that are
built from others, such as the lowering of a node, may fail between two changes; they say
themselves what they undo.

Apart from refusing a request, an edit can fail because it was asked about a position that does not
exist.  Such a request is outside the contract of the edit, and `Fault.outOfRange` is all that is
known of it.
-/

namespace SeaOfNodes

/-- How an edit fails. -/
inductive Fault where
  /-- The graph refuses the request. -/
  | violation (violation : Violation)
  /-- The request is about a position that does not exist. -/
  | outOfRange
deriving DecidableEq

/-- A computation that changes the graph and may fail; on failure the graph stays as far as it was
changed. -/
abbrev Edit (α : Type) : Type := EStateM Fault Graph α

namespace Edit

variable {α : Type}

/-- Consult the graph without changing it. -/
def ask (f : Graph → Except Violation α) : Edit α := fun g =>
  match f g with
  | .ok a => .ok a g
  | .error v => .error (.violation v) g

/-- Read the graph at a position that must exist. -/
def fetch (f : Graph → Option α) : Edit α := fun g =>
  match f g with
  | some a => .ok a g
  | none => .error .outOfRange g

/-- Refuse the request. -/
def refuse (v : Violation) : Edit α := throw (.violation v)

end Edit

end SeaOfNodes
