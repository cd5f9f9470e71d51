import SeaOfNodes.Node.Kind

/-!
# Slot layouts

Every kind of node has a fixed list of input slots: what each is called, which role its edge plays,
and whether it may stay empty.  A frame state has, after that, any number of further values.

Fixed nodes take their control predecessor in slot 0.  A kind has at most one slot in each of the
roles guard, state and memory.  Whoever reads or sets one of these goes by the number of the slot,
which `NodeKind.slotOf` has for every kind; the numbers are those of the layouts
(`NodeKind.slotOf_eq_findIdx?`).
-/

namespace SeaOfNodes

/-- What an input slot holds. -/
structure SlotInfo where
  /-- The name of the slot in messages. -/
  name : String
  /-- The role of the edge that the slot holds. -/
  inputType : InputType
  /-- Whether the slot may be empty. -/
  optional : Bool
deriving DecidableEq

namespace SlotInfo

/-- A slot that must be filled. -/
def required (name : String) (inputType : InputType) : SlotInfo := ⟨name, inputType, false⟩

/-- A slot that may be empty. -/
def mayBeEmpty (name : String) (inputType : InputType) : SlotInfo := ⟨name, inputType, true⟩

/-- The control predecessor. -/
def control : SlotInfo := required "control" .control

/-- The address of an access. -/
def address : SlotInfo := required "address" .address

/-- The guard of an access. -/
def guard : SlotInfo := mayBeEmpty "guard" .guard

/-- The frame state after a write. -/
def stateAfter : SlotInfo := mayBeEmpty "state_after" .state

/-- The last access of the same location. -/
def lastLocationAccess : SlotInfo := mayBeEmpty "last_location_access" .memory

/-- The same witness on a machine access. -/
def memory : SlotInfo := mayBeEmpty "memory" .memory

end SlotInfo

namespace NodeKind

open SlotInfo

/-- The fixed input slots. -/
def layout : NodeKind → List SlotInfo
  | start | parameter _ | constInt _ | constNull | frameState _ => []
  | newInstance _ | memoryBarrier _ => [control]
  | offsetAddress => [required "base" .value, required "offset" .value]
  | nullCheckGuard | nullCheck => [control, required "object" .value]
  | read _ => [control, address, guard, lastLocationAccess]
  | write .. => [control, address, required "value" .value, guard, stateAfter, lastLocationAccess]
  | compareAndSwap .. =>
    [control, required "object" .value, required "offset" .value, required "expected" .value,
      required "new_value" .value, stateAfter]
  | rawLoad _ => [control, address, guard, memory]
  | rawStore _ => [control, address, required "value" .value, guard, memory, stateAfter]
  | atomicCas .. =>
    [control, address, required "expected" .value, required "new_value" .value, stateAfter]
  | writeBarrier _ => [control, address, mayBeEmpty "value" .value]
  | ret => [control, mayBeEmpty "result" .value]

/-- The role of the edges past the fixed slots, for a kind that takes any number of them. -/
def variadic : NodeKind → Option InputType
  | frameState _ => some .value
  | _ => none

/-- The description of a slot past the fixed ones. -/
def tailSlot (type : InputType) : SlotInfo := required "values" type

/-- The slot in which a node keeps its guard, its frame state or the last access of its location. -/
def slotOf : NodeKind → InputType → Option Nat
  | read _, .guard | rawLoad _, .guard => some 2
  | write .., .guard | rawStore _, .guard => some 3
  | write .., .state | atomicCas .., .state => some 4
  | compareAndSwap .., .state | rawStore _, .state => some 5
  | read _, .memory | rawLoad _, .memory => some 3
  | rawStore _, .memory => some 4
  | write .., .memory => some 5
  | _, _ => none

/-- The numbers of slots agree with the layouts: the slot is the first one of its role. -/
theorem slotOf_eq_findIdx? (kind : NodeKind) {type : InputType}
    (h : type = .guard ∨ type = .state ∨ type = .memory) :
    kind.slotOf type = kind.layout.findIdx? fun info => info.inputType = type := by
  rcases h with rfl | rfl | rfl <;> cases kind <;> rfl

/-- A slot that is found by its role has the role. -/
theorem exists_layout_of_slotOf {kind : NodeKind} {type : InputType} {slot : Nat}
    (h : kind.slotOf type = some slot) :
    ∃ info, kind.layout[slot]? = some info ∧ info.inputType = type := by
  cases type <;> cases kind <;> cases h <;> exact ⟨_, rfl, rfl⟩

/-- The first slot of a fixed node, other than the start, is its control input. -/
theorem head_layout_of_isFixed {kind : NodeKind} (h : kind.isFixed = true)
    (hstart : kind ≠ start) : kind.layout.head? = some control := by
  match kind, h, hstart with
  | start, _, hstart => exact absurd rfl hstart
  | newInstance _, _, _ | nullCheckGuard, _, _ | read _, _, _ | write .., _, _
  | compareAndSwap .., _, _ | nullCheck, _, _ | rawLoad _, _, _ | rawStore _, _, _
  | atomicCas .., _, _ | memoryBarrier _, _, _ | writeBarrier _, _, _ | ret, _, _ => rfl

end NodeKind

end SeaOfNodes
