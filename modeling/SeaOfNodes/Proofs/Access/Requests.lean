import SeaOfNodes.Access.View
import SeaOfNodes.Proofs.Access.Typing
import SeaOfNodes.Proofs.Graph.After

/-!
# Requests that are accepted

A request for an access runs its checks and then adds the node of the access.  It succeeds exactly
if the checks do and the inputs fit their slots, and then its node stands at the next id of the
graph (`run_addRead_eq_ok_iff`, `run_addWrite_eq_ok_iff`, `run_addCompareAndSwap_eq_ok_iff`).

The checks of a swap look at the kind that is swapped only as it is on the operand stack.  So kinds
that widen alike are accepted alike (`checkSwap_congr`), and all that is known of an accepted kind
is that it widens as the declared one does (`stackKind_eq_of_checkSwap`).
-/

namespace SeaOfNodes

/-- Stamps on the operand stack are compatible for kinds that widen alike, and for no others. -/
theorem Stamp.compatible_onStack_iff {a b : ValueKind} :
    (onStack a).compatible (onStack b) = true ↔ a.stackKind = b.stackKind := by
  cases a <;> cases b <;> decide

namespace Graph

variable {g g' : Graph} {id : NodeId} {node : Node}

/-! ## Acceptance -/

theorem run_addRead_eq_ok_iff {request : ReadRequest} :
    (addRead request).run g = .ok id g' ↔
      g.checkAddress request.address request.location = .ok () ∧ g.SlotsFit (g.readNode request) ∧
        g.nextId = id ∧ g.insert (g.readNode request) = g' := by
  simp only [addRead, Edit.run_ask_bind_eq_ok_iff, Edit.run_get_bind, run_add_eq_ok_iff,
    exists_unit_iff]

theorem run_addWrite_eq_ok_iff {request : WriteRequest} :
    (addWrite request).run g = .ok id g' ↔
      g.checkAddress request.address request.location = .ok () ∧
        g.checkValue request.value request.location = .ok () ∧
        g.SlotsFit (writeNode request) ∧ g.nextId = id ∧ g.insert (writeNode request) = g' := by
  simp only [addWrite, Edit.run_ask_bind_eq_ok_iff, run_add_eq_ok_iff, exists_unit_iff]

theorem run_addCompareAndSwap_eq_ok_iff {request : SwapRequest} :
    (addCompareAndSwap request).run g = .ok id g' ↔
      g.checkSwap request = .ok () ∧ g.SlotsFit (swapNode request) ∧ g.nextId = id ∧
        g.insert (swapNode request) = g' := by
  simp only [addCompareAndSwap, Edit.run_ask_bind_eq_ok_iff, run_add_eq_ok_iff, exists_unit_iff]

/-- The node that is inserted is attached. -/
theorem liveNode?_insert (g : Graph) (node : Node) :
    (g.insert node).liveNode? g.nextId =
      some { node with bci := g.nextBci, state := .attached } := by
  rw [liveNode?, node?_insert, if_pos rfl]
  rfl

/-! ## The kind that is swapped -/

/-- A swap that was checked swaps a kind that widens as the declared one does. -/
theorem stackKind_eq_of_checkSwap {request : SwapRequest} {kind : ValueKind}
    (hcheck : g.checkSwap request = .ok ())
    (hdeclared : g.locations.valueKind request.location = some kind) :
    kind.stackKind = request.valueKind.stackKind := by
  obtain ⟨-, -, identity, -, -, -, -, -, hidentity, hfits, -⟩ := checkSwap_eq_ok_iff.mp hcheck
  rw [LocationUniverse.valueKind, hidentity, Option.bind_some] at hdeclared
  exact Stamp.compatible_onStack_iff.mp (hfits kind hdeclared)

/-- The check does not tell kinds apart that widen alike. -/
theorem checkSwap_congr (request : SwapRequest) {kind : ValueKind}
    (h : kind.stackKind = request.valueKind.stackKind) :
    g.checkSwap { request with valueKind := kind } = g.checkSwap request := by
  have hswapped : Stamp.onStack kind = Stamp.onStack request.valueKind := by
    rw [Stamp.onStack, h, Stamp.onStack]
  unfold checkSwap
  dsimp only
  rw [hswapped]

/-- **Kinds that widen alike are accepted alike.** -/
theorem accepts_swap_congr {request : SwapRequest} {kind : ValueKind}
    (h : kind.stackKind = request.valueKind.stackKind)
    (haccepted : (addCompareAndSwap request).run g = .ok id g') :
    ∃ k, (addCompareAndSwap { request with valueKind := kind }).run g = .ok id k := by
  obtain ⟨hcheck, hfits, hid, -⟩ := run_addCompareAndSwap_eq_ok_iff.mp haccepted
  -- the layout of a swap does not depend on the kind
  have hfits' : g.SlotsFit (swapNode { request with valueKind := kind }) := hfits
  exact ⟨_, run_addCompareAndSwap_eq_ok_iff.mpr
    ⟨(checkSwap_congr request h).trans hcheck, hfits', hid, rfl⟩⟩

end Graph

end SeaOfNodes
