import SeaOfNodes.Node.Access
import SeaOfNodes.Node.InputType

/-!
# Node kinds

What a node is.  The set of kinds is closed, and every capability of a node is a function of its
kind: whether it is anchored in control flow, whether lowering replaces it, in which roles others
may refer to it, and which location it touches.

* **Fixed** nodes have a place in control flow: the start, allocations, null checks, accesses, and
  everything that lowering produces.
* **Floating** nodes do not: constants, parameters, addresses and frame states.
* **Lowerable** nodes (`read`, `write`, `compareAndSwap`) are replaced by sequences of machine
  operations.
-/

namespace SeaOfNodes

/-- What a node is, with the attributes that go with it. -/
inductive NodeKind where
  /-- The entry of control, and the memory state before any access. -/
  | start
  | parameter (index : UInt16)
  | constInt (value : Int64)
  | constNull
  /-- The allocation of an object of `size` bytes. -/
  | newInstance (size : UInt32)
  /-- A base and an offset, added. -/
  | offsetAddress
  /-- The state to deoptimize to; its inputs are the live values. -/
  | frameState (bci : UInt32)
  /-- An explicit guard that an object is not null. -/
  | nullCheckGuard
  | read (access : Access)
  /-- A store; `initialization` if the location held no valid value before it. -/
  | write (access : Access) (initialization : Bool)
  | compareAndSwap (valueKind : ValueKind) (location : LocationId)
  /-- The null check of a lowered access. -/
  | nullCheck
  | rawLoad (access : RawAccess)
  | rawStore (access : RawAccess)
  | atomicCas (valueKind : ValueKind) (location : LocationId) (strategy : SwapStrategy)
  | memoryBarrier (fence : Fence)
  | writeBarrier (barrier : WriteBarrier)
  | ret
deriving DecidableEq, Inhabited

/-- A static estimate of what a node costs. -/
structure NodeCost where
  /-- Estimated cycles. -/
  cycles : Nat
  /-- Estimated size of the code. -/
  size : Nat
deriving DecidableEq

namespace NodeKind

/-- The kind as it is written in messages, without its attributes. -/
def name : NodeKind → String
  | start => "Start"
  | parameter _ => "Parameter"
  | constInt _ => "ConstInt"
  | constNull => "ConstNull"
  | newInstance _ => "NewInstance"
  | offsetAddress => "OffsetAddress"
  | frameState _ => "FrameState"
  | nullCheckGuard => "NullCheckGuard"
  | read _ => "Read"
  | write .. => "Write"
  | compareAndSwap .. => "CompareAndSwap"
  | nullCheck => "NullCheck"
  | rawLoad _ => "RawLoad"
  | rawStore _ => "RawStore"
  | atomicCas .. => "AtomicCas"
  | memoryBarrier _ => "MemoryBarrier"
  | writeBarrier _ => "WriteBarrier"
  | ret => "Return"

/-- Whether the node is anchored in control flow. -/
def isFixed : NodeKind → Bool
  | parameter _ | constInt _ | constNull | offsetAddress | frameState _ => false
  | _ => true

/-- Whether lowering replaces the node. -/
def isLowerable : NodeKind → Bool
  | read _ | write .. | compareAndSwap .. => true
  | _ => false

/-- Whether the node does more than compute its result. -/
def hasSideEffect : NodeKind → Bool
  | write .. | compareAndSwap .. | rawStore _ | atomicCas .. | memoryBarrier _ | writeBarrier _ =>
    true
  | _ => false

/-- The roles in which other nodes may refer to the node.  An access that checks its base for null
may serve as a guard. -/
def allowedUsages : NodeKind → InputTypes
  | start | rawStore _ | memoryBarrier _ => .ofList [.control, .memory]
  | parameter _ | constInt _ | constNull => .ofList [.value]
  | newInstance _ | compareAndSwap .. | rawLoad _ | atomicCas .. =>
    .ofList [.value, .control, .memory]
  | offsetAddress => .ofList [.address]
  | frameState _ => .ofList [.state]
  | nullCheckGuard | nullCheck => .ofList [.control, .guard]
  | read access =>
    if access.nullCheck then .ofList [.value, .control, .memory, .guard]
    else .ofList [.value, .control, .memory]
  | write access _ =>
    if access.nullCheck then .ofList [.control, .memory, .guard]
    else .ofList [.control, .memory]
  | writeBarrier _ => .ofList [.control]
  | ret => .ofList []

/-- Whether another node may refer to the node in the role `type`. -/
def allows (kind : NodeKind) (type : InputType) : Bool := kind.allowedUsages.allows type

/-- The location that the node reads or kills, if it names one. -/
def location : NodeKind → Option LocationId
  | read access | write access _ => some access.location
  | rawLoad access | rawStore access => some access.location
  | compareAndSwap _ location | atomicCas _ location _ => some location
  | _ => none

/-- The estimated cost. -/
def cost : NodeKind → NodeCost
  | start | parameter _ | frameState _ | offsetAddress => ⟨0, 0⟩
  | constInt _ | constNull => ⟨1, 1⟩
  | newInstance _ => ⟨8, 8⟩
  | nullCheckGuard | nullCheck => ⟨2, 2⟩
  | read _ | rawLoad _ => ⟨2, 1⟩
  | write .. | rawStore _ => ⟨3, 1⟩
  | compareAndSwap .. | atomicCas .. => ⟨30, 8⟩
  | memoryBarrier _ => ⟨20, 2⟩
  | writeBarrier _ => ⟨4, 4⟩
  | ret => ⟨2, 1⟩

/-- Every lowerable node is fixed. -/
theorem isFixed_of_isLowerable {kind : NodeKind} (h : kind.isLowerable = true) :
    kind.isFixed = true := by
  match kind, h with
  | read _, _ | write .., _ | compareAndSwap .., _ => rfl

end NodeKind

end SeaOfNodes
