import SeaOfNodes.Node.Basic

/-!
# Violations

What can be wrong with a request to the graph.  Each violation names the invariant that the request
would have broken and, where there is one, the node at fault.  A violation is a defect of the pass
that made the request; nothing is repaired or retried.
-/

namespace SeaOfNodes

/-- The invariants of the graph. -/
inductive Invariant where
  /-- Every input edge is noted in the usage list of its target. -/
  | edgeSymmetry
  /-- Only nodes of the graph are changed or referred to. -/
  | aliveness
  /-- Inputs stay within the declared slots. -/
  | inputArity
  /-- Mandatory slots are filled. -/
  | mandatoryInput
  /-- Targets allow the role of the slot that holds them. -/
  | usageType
  /-- The operands of a compare-and-swap are compatible. -/
  | stampCompatibility
  /-- Address and value fit the location. -/
  | accessLayout
  /-- The node has the kind that the operation requires. -/
  | nodeKind
  /-- A node that leaves the graph leaves no usages behind. -/
  | noDanglingUsages
deriving DecidableEq, Inhabited

/-- The invariant as text. -/
def Invariant.text : Invariant → String
  | edgeSymmetry => "edge symmetry"
  | aliveness => "aliveness"
  | inputArity => "input arity"
  | mandatoryInput => "mandatory input"
  | usageType => "usage type"
  | stampCompatibility => "stamp compatibility"
  | accessLayout => "access layout"
  | nodeKind => "node kind"
  | noDanglingUsages => "no dangling usages"

/-- A request that the graph refuses. -/
inductive Violation where
  /-- The id does not belong to the graph. -/
  | unknownNode (node : NodeId)
  /-- The node is not attached. -/
  | notAlive (node : NodeId) (state : NodeState)
  /-- The node is in another state than the operation expects. -/
  | invalidState (node : NodeId) (state expected : NodeState)
  /-- The node has no such slot. -/
  | arityViolation (node : NodeId) (kind : String) (slot : Nat)
  /-- A slot that must be filled would be empty. -/
  | mandatoryInputMissing (node : NodeId) (kind slot : String)
  /-- The input does not allow to be used in this role. -/
  | disallowedUsage (node input : NodeId) (inputKind : String) (inputType : InputType)
  /-- The operands of a compare-and-swap do not fit each other. -/
  | incompatibleStamps (expected newValue : Stamp)
  /-- An operand does not fit the location. -/
  | accessLayout (node : NodeId) (what : String) (stamp : Stamp) (location : String)
  /-- The node is of another kind than the operation requires. -/
  | unexpectedKind (node : NodeId) (expected found : String)
  /-- The node is still in use. -/
  | danglingUsages (node : NodeId) (count : Nat)
  /-- An input edge and the usage list of its target disagree. -/
  | asymmetricEdge (user input : NodeId)
  /-- An expansion offers nothing for the usages of one role. -/
  | missingReplacement (node : NodeId) (inputType : InputType)
deriving DecidableEq

namespace Violation

/-- The invariant that the request would have broken. -/
def invariant : Violation → Invariant
  | unknownNode _ | notAlive .. | invalidState .. => .aliveness
  | arityViolation .. => .inputArity
  | mandatoryInputMissing .. => .mandatoryInput
  | disallowedUsage .. => .usageType
  | incompatibleStamps .. => .stampCompatibility
  | accessLayout .. => .accessLayout
  | unexpectedKind .. => .nodeKind
  | danglingUsages .. | missingReplacement .. => .noDanglingUsages
  | asymmetricEdge .. => .edgeSymmetry

/-- The node at fault, where one is known. -/
def node? : Violation → Option NodeId
  | unknownNode node | notAlive node _ | invalidState node _ _ | arityViolation node _ _
  | mandatoryInputMissing node _ _ | disallowedUsage node _ _ _ | accessLayout node _ _ _
  | unexpectedKind node _ _ | danglingUsages node _ | asymmetricEdge node _
  | missingReplacement node _ => some node
  | incompatibleStamps _ _ => none

/-- The violation as text. -/
def message : Violation → String
  | unknownNode node => "node " ++ node.text ++ " does not belong to this graph"
  | notAlive node state => "node " ++ node.text ++ " is not alive (" ++ state.name ++ ")"
  | invalidState node state expected =>
    "node " ++ node.text ++ " is " ++ state.name ++ ", expected " ++ expected.name
  | arityViolation node kind slot =>
    kind ++ " " ++ node.text ++ " has no input slot " ++ toString slot
  | mandatoryInputMissing node kind slot =>
    "mandatory input \x60" ++ slot ++ "\x60 of " ++ kind ++ " " ++ node.text ++ " cannot be empty"
  | disallowedUsage node input inputKind inputType =>
    inputKind ++ " " ++ input.text ++ " cannot be used as a " ++ inputType.name ++ " input of " ++
      node.text
  | incompatibleStamps expected newValue =>
    "compare-and-swap operands are incompatible: expected is " ++ expected.text ++
      ", new value is " ++ newValue.text
  | accessLayout node what stamp location =>
    what ++ " " ++ node.text ++ " with stamp " ++ stamp.text ++ " does not fit location " ++
      location
  | unexpectedKind node expected found =>
    "expected " ++ expected ++ " at " ++ node.text ++ ", found " ++ found
  | danglingUsages node count =>
    node.text ++ " still has " ++ toString count ++ " usage(s) after it was replaced"
  | asymmetricEdge user input =>
    "edge " ++ user.text ++ " -> " ++ input.text ++ " is not mirrored in the usage set"
  | missingReplacement node inputType =>
    "lowering " ++ node.text ++ " left " ++ inputType.name ++ " usages without a replacement"

end Violation

end SeaOfNodes
