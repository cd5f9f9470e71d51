import Mathlib.Tactic.MkIffOfInductiveProp
import SeaOfNodes.Access.View
import SeaOfNodes.Memory.Effect
import SeaOfNodes.Proofs.Access.Requests
import SeaOfNodes.Proofs.Graph.Runs

/-!
# Swaps that are accepted

A compare-and-swap is built in three steps: its operands are checked against each other, against the
kind that is swapped and against the location; then the inputs are checked against the layout of its
slots; then it is inserted.  `Graph.AcceptsSwap` is what a client has to know of a request, with
every input looked at for itself, and **`addCompareAndSwap_exact`** says that it is exactly what the
three steps ask for, and that the graph gives back what was requested.

### What is load-bearing

The checks never compare the new value with the kind that is swapped, nor an operand with the
location.  They compare the expected value with the new one and with the kind, and the kind with
that of the location.  The rest follows because compatibility of stamps is symmetric and transitive
(`Stamp.compatible_comm`, `Stamp.compatible_trans`), although it is not reflexive: nothing is
compatible with `illegal`.
-/

namespace SeaOfNodes

/-- The swap that is requested, as it should be seen at `id`. -/
def SwapRequest.view (request : SwapRequest) (id : NodeId) : SwapView where
  id := id
  control := request.control
  object := request.object
  offset := request.offset
  expected := request.expected
  newValue := request.newValue
  valueKind := request.valueKind
  location := request.location
  stateAfter := request.stateAfter
  stamp := .swapResult

/-- Whether the node is a frame state. -/
def NodeKind.isFrameState : NodeKind → Bool
  | frameState _ => true
  | _ => false

/-- Frame states are what may be referred to as a state, and nothing else is. -/
theorem NodeKind.allows_state (kind : NodeKind) : kind.allows .state = kind.isFrameState := by
  cases kind with
  | read access | write access _ =>
      cases hcheck : access.nullCheck <;> simp [allows, allowedUsages, isFrameState, hcheck]
  | _ => rfl

namespace Graph

variable {g g' : Graph} {id : NodeId} {request : SwapRequest}

/-- Whether `id` is an attached frame state. -/
def isFrameState (g : Graph) (id : NodeId) : Bool :=
  (g.node? id).any fun node => node.isAlive && node.kind.isFrameState

/-- Whether the stamp of a node is compatible with that of a kind on the operand stack. -/
def holdsKind (g : Graph) (id : NodeId) (kind : ValueKind) : Bool :=
  (g.stamp? id).any fun stamp => stamp.compatible (.onStack kind)

/-- **A request for a swap is well-formed.** -/
@[mk_iff]
structure AcceptsSwap (g : Graph) (request : SwapRequest) : Prop where
  /-- Control can go on from the predecessor. -/
  control : g.Serves request.control .control
  /-- The object is a value. -/
  object : g.Serves request.object .value
  /-- The offset is one. -/
  offset : g.Serves request.offset .value
  /-- So is what the location is expected to hold. -/
  expected : g.Serves request.expected .value
  /-- And so is what is to be stored. -/
  newValue : g.Serves request.newValue .value
  /-- The frame state is one, if it is given. -/
  stateAfter : request.stateAfter.all g.isFrameState = true
  /-- The location is known. -/
  known : (g.locations.get? request.location).isSome = true
  /-- The expected value fits the kind that is swapped. -/
  expectedFits : g.holdsKind request.expected request.valueKind = true
  /-- The new value fits it. -/
  newValueFits : g.holdsKind request.newValue request.valueKind = true
  /-- The kind fits the one that the location declares. -/
  kindFits : ((g.locations.valueKind request.location).all fun kind =>
    (Stamp.onStack kind).compatible (.onStack request.valueKind)) = true
  /-- A location inside an object is addressed from a reference. -/
  base : (g.locations.get? request.location).any LocationIdentity.isHeap = true →
    (g.stamp? request.object).any Stamp.isObject = true
  /-- The offset is an integer. -/
  integer : (g.stamp? request.offset).any Stamp.isInteger = true

instance (type : InputType) : Decidable (g.Serves id type) :=
  decidable_of_iff _ serves_iff.symm

instance : Decidable (g.AcceptsSwap request) :=
  decidable_of_iff _ (acceptsSwap_iff g request).symm

theorem serves_state_iff : g.Serves id .state ↔ g.isFrameState id = true := by
  unfold Serves isFrameState
  cases g.node? id <;> simp [NodeKind.allows_state]

theorem fits_stateAfter_iff {state : Option NodeId} :
    g.Fits .stateAfter state ↔ state.all g.isFrameState = true := by
  rw [fits_optional_iff .stateAfter rfl, Option.all_eq_true]
  exact forall₂_congr fun _ _ => serves_state_iff

theorem slotsFit_swapNode_iff :
    g.SlotsFit (swapNode request) ↔
      g.Serves request.control .control ∧ g.Serves request.object .value ∧
        g.Serves request.offset .value ∧ g.Serves request.expected .value ∧
        g.Serves request.newValue .value ∧ request.stateAfter.all g.isFrameState = true := by
  rw [swapNode, slotsFit_withInputs_iff rfl, ← fits_stateAfter_iff]
  simp only [NodeKind.layout, List.forall₂_cons, List.forall₂_nil_left_iff, and_true]
  rfl

/-! ## What the checks ask for -/

theorem holdsKind_of_requireAlive {node : Node} (h : g.requireAlive id = .ok node)
    (kind : ValueKind) : g.holdsKind id kind = node.stamp.compatible (.onStack kind) := by
  rw [holdsKind, stamp?_of_requireAlive h, Option.any_some]

/-- **What the steps ask for is that the request is well-formed.** -/
theorem acceptsSwap_iff_checks :
    g.AcceptsSwap request ↔ g.checkSwap request = .ok () ∧ g.SlotsFit (swapNode request) := by
  rw [checkSwap_eq_ok_iff, slotsFit_swapNode_iff]
  constructor
  · intro h
    obtain ⟨object, hobject⟩ := h.object.exists_requireAlive
    obtain ⟨offset, hoffset⟩ := h.offset.exists_requireAlive
    obtain ⟨expected, hexpected⟩ := h.expected.exists_requireAlive
    obtain ⟨newValue, hnewValue⟩ := h.newValue.exists_requireAlive
    obtain ⟨identity, hidentity⟩ := Option.isSome_iff_exists.mp h.known
    have hexpectedFits := h.expectedFits
    have hnewValueFits := h.newValueFits
    have hkindFits := h.kindFits
    have hbase := h.base
    have hinteger := h.integer
    rw [holdsKind_of_requireAlive hexpected] at hexpectedFits
    rw [holdsKind_of_requireAlive hnewValue, Stamp.compatible_comm] at hnewValueFits
    rw [LocationUniverse.valueKind, hidentity, Option.bind_some, Option.all_eq_true] at hkindFits
    rw [hidentity, Option.any_some, stamp?_of_requireAlive hobject, Option.any_some] at hbase
    rw [stamp?_of_requireAlive hoffset, Option.any_some] at hinteger
    exact ⟨⟨expected, newValue, identity, offset, hexpected, hnewValue,
      Stamp.compatible_trans hexpectedFits hnewValueFits, hexpectedFits, hidentity, hkindFits,
      (checkBase_of_requireAlive hobject).mpr hbase, hoffset, hinteger⟩,
      h.control, h.object, h.offset, h.expected, h.newValue, h.stateAfter⟩
  · rintro ⟨⟨expected, newValue, identity, offset, hexpected, hnewValue, heach, hkind, hidentity,
      hdeclared, hcheckBase, hoffset, hinteger⟩, hcontrol, hservesObject, hservesOffset,
      hservesExpected, hservesNewValue, hstate⟩
    obtain ⟨object, hobject⟩ := hservesObject.exists_requireAlive
    refine ⟨hcontrol, hservesObject, hservesOffset, hservesExpected, hservesNewValue, hstate,
      ?_, ?_, ?_, ?_, ?_, ?_⟩
    · rw [hidentity]
      rfl
    · rw [holdsKind_of_requireAlive hexpected, hkind]
    · rw [holdsKind_of_requireAlive hnewValue]
      rw [Stamp.compatible_comm] at heach
      exact Stamp.compatible_trans heach hkind
    · rw [LocationUniverse.valueKind, hidentity, Option.bind_some, Option.all_eq_true]
      exact hdeclared
    · rw [hidentity, Option.any_some, stamp?_of_requireAlive hobject, Option.any_some]
      exact (checkBase_of_requireAlive hobject).mp hcheckBase
    · rw [stamp?_of_requireAlive hoffset, Option.any_some, hinteger]

/-! ## What is built -/

/-- The node that is inserted is seen as the swap that was requested. -/
theorem asCompareAndSwap_insert (g : Graph) (request : SwapRequest) :
    (g.insert (swapNode request)).asCompareAndSwap g.nextId = some (request.view g.nextId) := by
  rw [asCompareAndSwap, liveNode?_insert]
  rfl

/-- A value that fits the kind that is swapped fits the declared kind. -/
theorem AcceptsSwap.holds_declared (h : g.AcceptsSwap request) {kind : ValueKind}
    (hdeclared : g.locations.valueKind request.location = some kind)
    (hfits : g.holdsKind id request.valueKind = true) : g.holdsKind id kind = true := by
  have hkind := h.kindFits
  rw [hdeclared, Option.all_some, Stamp.compatible_comm] at hkind
  rw [holdsKind, Option.any_eq_true] at hfits ⊢
  obtain ⟨stamp, hstamp, hcompatible⟩ := hfits
  exact ⟨stamp, hstamp, Stamp.compatible_trans hcompatible hkind⟩

/-- **A swap is accepted exactly if it is well-formed, and is then as it was requested.**  In any
graph:

* the request succeeds if and only if it is well-formed;
* then one node is new, at the next id, and all others are as they were;
* the view of the new node has all that was requested, the frame state included, and it kills the
  location;
* both operands fit the kind that the location declares, if it declares one. -/
theorem addCompareAndSwap_exact (g : Graph) (request : SwapRequest) :
    ((∃ id g', (addCompareAndSwap request).run g = .ok id g') ↔ g.AcceptsSwap request) ∧
    ∀ id g', (addCompareAndSwap request).run g = .ok id g' →
      id = g.nextId ∧ g'.size = g.size + 1 ∧ (∀ x, x ≠ id → g'.node? x = g.node? x) ∧
      g'.asCompareAndSwap id = some (request.view id) ∧
      g'.checkpoint? id = some (.single request.location) ∧
      ∀ kind, g.locations.valueKind request.location = some kind →
        g.holdsKind request.expected kind = true ∧ g.holdsKind request.newValue kind = true := by
  constructor
  · simp only [run_addCompareAndSwap_eq_ok_iff, acceptsSwap_iff_checks, exists_and_left, exists_eq',
      and_true]
  · intro id g' hrun
    obtain ⟨hcheck, hfits, rfl, rfl⟩ := run_addCompareAndSwap_eq_ok_iff.mp hrun
    have accepts := acceptsSwap_iff_checks.mpr ⟨hcheck, hfits⟩
    refine ⟨rfl, size_insert g _, fun x hx => ?_, asCompareAndSwap_insert g request, ?_,
      fun kind hkind => ⟨accepts.holds_declared hkind accepts.expectedFits,
        accepts.holds_declared hkind accepts.newValueFits⟩⟩
    · rw [node?_insert, if_neg hx.symm]
    · rw [checkpoint?, node?_insert, if_pos rfl]
      rfl

/-- `storeThenLoad` and the location of an integer field. -/
def lockState : Graph := (internLocation (.field "Lock" "state" .int false)).after storeThenLoad

/-- A swap of the field, behind the load. -/
def lockSwap : SwapRequest where
  control := ⟨6⟩
  object := ⟨1⟩
  offset := ⟨2⟩
  expected := ⟨4⟩
  newValue := ⟨4⟩
  valueKind := .int
  location := ⟨2⟩

/-- The swap is built, and its new value fits the field. -/
theorem addCompareAndSwap_exact_lockSwap :
    ∃ g', (addCompareAndSwap lockSwap).run lockState = .ok ⟨8⟩ g' ∧ g'.size = 9 ∧
      g'.asCompareAndSwap ⟨8⟩ = some (lockSwap.view ⟨8⟩) ∧
      g'.checkpoint? ⟨8⟩ = some (.single ⟨2⟩) ∧ lockState.holdsKind ⟨4⟩ .int = true := by
  obtain ⟨hiff, hexact⟩ := addCompareAndSwap_exact lockState lockSwap
  have accepts : lockState.AcceptsSwap lockSwap := by decide +kernel
  obtain ⟨id, g', hrun⟩ := hiff.mpr accepts
  obtain ⟨hid, hsize, -, hview, hkills, hdeclared⟩ := hexact id g' hrun
  have hnext : lockState.nextId = ⟨8⟩ := by decide +kernel
  have hcount : lockState.size = 8 := by decide +kernel
  rw [hnext] at hid
  subst hid
  rw [hcount] at hsize
  exact ⟨g', hrun, hsize, hview, hkills, (hdeclared .int (by decide +kernel)).2⟩

/-- A new value that is too wide is refused, although the check never compares it with the
kind. -/
example : ¬ lockState.AcceptsSwap { lockSwap with newValue := ⟨2⟩ } := by decide +kernel

end Graph

end SeaOfNodes
