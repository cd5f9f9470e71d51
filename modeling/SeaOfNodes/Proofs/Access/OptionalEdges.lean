import SeaOfNodes.Proofs.Access.Swaps
import SeaOfNodes.Proofs.Graph.Undoing
import SeaOfNodes.Proofs.Lowering.Expand

/-!
# The optional edges of accesses

The three setters of optional edges are one edit with a role: `OptionalEdge` names the roles, and
`OptionalEdge.position` says in which slot each kind of node keeps the edge of a role.  The numbers
differ from kind to kind without a pattern, and views and memory accesses read the same slots.
**`Reachable.optional_edges_exact`** says that a setter hits the slot of its role and no other, that
whatever reads the edge afterwards reads what was set, and what the setter accepts.

### What is load-bearing

That a role determines the slot: no kind has two slots of one of the three roles
(`OptionalEdge.pairwise_layout`), and further values never have any of them
(`NodeKind.eq_value_of_variadic`).  The edges of other roles are in other slots, and so views change
in one field only (`OptionalEdge.inputOf_put`).
-/

namespace SeaOfNodes

/-- The edges of accesses that are attached and cleared one by one. -/
inductive OptionalEdge where
  /-- The frame state after the access. -/
  | stateAfter
  /-- The last access of the same location. -/
  | lastLocationAccess
  /-- The condition under which the access may execute. -/
  | guard
deriving DecidableEq

/-- Further values are values. -/
theorem NodeKind.eq_value_of_variadic {kind : NodeKind} {type : InputType}
    (h : kind.variadic = some type) : type = .value := by
  cases kind with
  | frameState =>
      cases h
      rfl
  | _ => cases h

namespace OptionalEdge

/-- The role of the edge. -/
def type : OptionalEdge → InputType
  | stateAfter => .state
  | lastLocationAccess => .memory
  | guard => .guard

/-- What a node should be that has the edge. -/
def expected : OptionalEdge → String
  | stateAfter => "state split"
  | lastLocationAccess => "memory access"
  | guard => "fixed access"

/-- The slot in which a node of the given kind keeps the edge. -/
def position : OptionalEdge → NodeKind → Option Nat
  | stateAfter, .write .. | stateAfter, .atomicCas .. => some 4
  | stateAfter, .compareAndSwap .. | stateAfter, .rawStore _ => some 5
  | lastLocationAccess, .read _ | lastLocationAccess, .rawLoad _ => some 3
  | lastLocationAccess, .rawStore _ => some 4
  | lastLocationAccess, .write .. => some 5
  | guard, .read _ | guard, .rawLoad _ => some 2
  | guard, .write .. | guard, .rawStore _ => some 3
  | _, _ => none

/-- The setter of the edge. -/
def set : OptionalEdge → NodeId → Option NodeId → Edit (Option NodeId)
  | stateAfter => Graph.setStateAfter
  | lastLocationAccess => Graph.setLastLocationAccess
  | guard => Graph.setGuard

/-- What may be attached: a frame state, or what may be referred to in the role. -/
def Takes : OptionalEdge → Graph → NodeId → Prop
  | stateAfter, g, d => g.isFrameState d = true
  | lastLocationAccess, g, d => g.Serves d .memory
  | guard, g, d => g.Serves d .guard

/-- A view that shows `input` for the edge, and is as it was otherwise. -/
def put (input : Option NodeId) : OptionalEdge → AccessView → AccessView
  | lastLocationAccess, .read view => .read { view with lastLocationAccess := input }
  | guard, .read view => .read { view with guard := input }
  | stateAfter, .write view => .write { view with stateAfter := input }
  | lastLocationAccess, .write view => .write { view with lastLocationAccess := input }
  | guard, .write view => .write { view with guard := input }
  | stateAfter, .swap view => .swap { view with stateAfter := input }
  | _, view => view

/-- The same for memory accesses, which show no more than the last access. -/
def putMemory (input : Option NodeId) : OptionalEdge → MemoryAccess → MemoryAccess
  | lastLocationAccess, access => { access with lastLocationAccess := input }
  | _, access => access

variable {edge : OptionalEdge} {kind : NodeKind} {slot i : Nat} {info : SlotInfo}
  {node node' : Node} {input : Option NodeId}

/-! ## Slots and roles -/

theorem set_eq (edge : OptionalEdge) (id : NodeId) (input : Option NodeId) :
    edge.set id input = (do
      let slot ← Edit.ask (·.requireSlotOf id edge.type edge.expected)
      Graph.setInput id slot input) := by
  cases edge <;> rfl

theorem slotOf_type (edge : OptionalEdge) (kind : NodeKind) :
    kind.slotOf edge.type = edge.position kind := by
  cases edge <;> cases kind <;> rfl

/-- The role is one of the three that a node has a slot number for. -/
theorem type_cases (edge : OptionalEdge) :
    edge.type = .guard ∨ edge.type = .state ∨ edge.type = .memory := by
  cases edge <;> simp [type]

theorem takes_iff {g : Graph} {d : NodeId} : edge.Takes g d ↔ g.Serves d edge.type := by
  cases edge with
  | stateAfter => exact Graph.serves_state_iff.symm
  | lastLocationAccess | guard => exact Iff.rfl

/-- No kind has two slots of the role. -/
theorem pairwise_layout (edge : OptionalEdge) (kind : NodeKind) :
    kind.layout.Pairwise fun a b => ¬ (a.inputType = edge.type ∧ b.inputType = edge.type) := by
  cases edge <;> cases kind <;> exact of_decide_eq_true rfl

/-- The slots of the role are optional. -/
theorem optional_of_mem_layout (edge : OptionalEdge) (kind : NodeKind) :
    ∀ info ∈ kind.layout, info.inputType = edge.type → info.optional = true := by
  cases edge <;> cases kind <;> exact of_decide_eq_true rfl

/-- **The position of an edge is the slot of its role.** -/
theorem position_eq_some_iff :
    edge.position kind = some slot ↔
      ∃ info, kind.layout[slot]? = some info ∧ info.inputType = edge.type := by
  rw [← slotOf_type]
  refine ⟨NodeKind.exists_layout_of_slotOf, ?_⟩
  rintro ⟨info, hinfo, htype⟩
  obtain ⟨hslot, rfl⟩ := List.getElem?_eq_some_iff.mp hinfo
  rw [NodeKind.slotOf_eq_findIdx? kind edge.type_cases, List.findIdx?_eq_some_iff_getElem]
  refine ⟨hslot, decide_eq_true htype, fun j hj => ?_⟩
  -- an earlier slot of the role would be a second one
  have apart := List.pairwise_iff_getElem.mp (pairwise_layout edge kind) j slot
    (Nat.lt_trans hj hslot) hslot hj
  simpa [htype] using apart

/-- Among the slots of a node, further values included, no other has the role. -/
theorem position_eq_some_iff_slotInfo :
    edge.position node.kind = some slot ↔
      ∃ info, node.slotInfo slot = some info ∧ info.inputType = edge.type := by
  rw [position_eq_some_iff]
  constructor
  · rintro ⟨info, hinfo, htype⟩
    exact ⟨info, Node.slotInfo_of_layout hinfo, htype⟩
  · rintro ⟨info, hinfo, htype⟩
    cases hlayout : node.kind.layout[slot]? with
    | some found =>
        rw [Node.slotInfo_of_layout hlayout] at hinfo
        exact ⟨info, hinfo, htype⟩
    | none =>
        rw [Node.slotInfo, hlayout] at hinfo
        dsimp only at hinfo
        split at hinfo
        · obtain ⟨tail, htail, rfl⟩ := Option.map_eq_some_iff.mp hinfo
          obtain rfl := NodeKind.eq_value_of_variadic htail
          cases edge <;> cases htype
        · cases hinfo

/-! ## Reading a node after its edge was set -/

section Put

variable (hposition : edge.position node.kind = some slot) (hkind : node'.kind = node.kind)
  (hinput : ∀ i, node'.input i = if i = slot then input else node.input i)

include hposition hinput

/-- The slots of other roles hold what they held. -/
theorem input_put (hinfo : node.kind.layout[i]? = some info) (hne : info.inputType ≠ edge.type) :
    node'.input i = node.input i := by
  rw [hinput, if_neg]
  rintro rfl
  obtain ⟨found, hfound, htype⟩ := position_eq_some_iff.mp hposition
  cases hinfo.symm.trans hfound
  exact hne htype

include hkind

/-- The role of the edge is filled with what was set, and the other roles are filled as before. -/
theorem inputOf_put (type : InputType) :
    node'.inputOf type = if type = edge.type then input else node.inputOf type := by
  unfold Node.inputOf
  rw [hkind]
  split
  · next htype =>
    rw [htype, slotOf_type, hposition, Option.bind_some, hinput, if_pos rfl]
  · next hne =>
    cases hslot : node.kind.slotOf type with
    | none => rfl
    | some s =>
        obtain ⟨info, hinfo, rfl⟩ := NodeKind.exists_layout_of_slotOf hslot
        exact input_put hposition hinput hinfo hne

end Put

end OptionalEdge

namespace Graph

variable {g g' : Graph} {id : NodeId} {node node' : Node} {edge : OptionalEdge} {slot : Nat}
  {old input : Option NodeId}

/-! ## Views after an edge was set -/

section Put

variable (hposition : edge.position node.kind = some slot) (hkind : node'.kind = node.kind)
  (hinput : ∀ i, node'.input i = if i = slot then input else node.input i)

include hposition hkind hinput

/-- The memory access shows what was set. -/
theorem memoryAccess?_put (hnode : g.node? id = some node) (hnode' : g'.node? id = some node') :
    g'.memoryAccess? id = (g.memoryAccess? id).map (edge.putMemory input) := by
  have hmemory := OptionalEdge.inputOf_put hposition hkind hinput .memory
  have haddress : node.kind.layout[1]? = some .address → node'.input 1 = node.input 1 :=
    fun hinfo => OptionalEdge.input_put hposition hinput hinfo (by cases edge <;> decide)
  unfold memoryAccess?
  rw [hnode, hnode', Option.bind_eq_bind, Option.bind_some, Option.bind_eq_bind, Option.bind_some,
    hkind, hmemory]
  cases hnodeKind : node.kind with
  | read | write | rawLoad | rawStore =>
      rw [haddress (by rw [hnodeKind]; rfl)]
      cases edge <;> rfl
  | _ => rfl

/-- The view of the access shows what was set. -/
theorem access?_put (hlive : g.liveNode? id = some node) (hlive' : g'.liveNode? id = some node')
    (hstamp : node'.stamp = node.stamp) : g'.access? id = (g.access? id).map (edge.put input) := by
  have hroles := OptionalEdge.inputOf_put hposition hkind hinput
  have hother : ∀ {i : Nat} {info : SlotInfo}, node.kind.layout[i]? = some info →
      (info.inputType = .control ∨ info.inputType = .address ∨ info.inputType = .value) →
      node'.input i = node.input i := by
    intro i info hinfo htype
    refine OptionalEdge.input_put hposition hinput hinfo ?_
    rcases htype with htype | htype | htype <;> rw [htype] <;> cases edge <;> decide
  unfold access?
  rw [hlive, hlive', Option.map_some, Option.map_some, hkind]
  cases hnodeKind : node.kind with
  | read access =>
      rw [hnodeKind] at hother hkind
      have hcontrol : node'.input 0 = node.input 0 := hother rfl (.inl rfl)
      have haddress : node'.input 1 = node.input 1 := hother rfl (.inr (.inl rfl))
      simp only [asRead, hlive, hlive', hkind, hnodeKind, hcontrol, haddress, hroles, hstamp,
        Option.bind_eq_bind, Option.bind_some]
      cases node.input 0 <;> cases node.input 1 <;> cases edge <;> rfl
  | write access initialization =>
      rw [hnodeKind] at hother hkind
      have hcontrol : node'.input 0 = node.input 0 := hother rfl (.inl rfl)
      have haddress : node'.input 1 = node.input 1 := hother rfl (.inr (.inl rfl))
      have hvalue : node'.input 2 = node.input 2 := hother rfl (.inr (.inr rfl))
      simp only [asWrite, hlive, hlive', hkind, hnodeKind, hcontrol, haddress, hvalue, hroles,
        Option.bind_eq_bind, Option.bind_some]
      cases node.input 0 <;> cases node.input 1 <;> cases node.input 2 <;> cases edge <;> rfl
  | compareAndSwap valueKind location =>
      rw [hnodeKind] at hother hkind
      have hcontrol : node'.input 0 = node.input 0 := hother rfl (.inl rfl)
      have hobject : node'.input 1 = node.input 1 := hother rfl (.inr (.inr rfl))
      have hoffset : node'.input 2 = node.input 2 := hother rfl (.inr (.inr rfl))
      have hexpected : node'.input 3 = node.input 3 := hother rfl (.inr (.inr rfl))
      have hnewValue : node'.input 4 = node.input 4 := hother rfl (.inr (.inr rfl))
      simp only [asCompareAndSwap, hlive, hlive', hkind, hnodeKind, hcontrol, hobject, hoffset,
        hexpected, hnewValue, hroles, hstamp, Option.bind_eq_bind, Option.bind_some]
      cases node.input 0 <;> cases node.input 1 <;> cases node.input 2 <;> cases node.input 3 <;>
        cases node.input 4 <;> cases edge <;> rfl
  | _ => rfl

end Put

/-! ## Setting an edge -/

/-- The user of an edge that was moved is what it was, apart from the one slot. -/
theorem EdgeMoved.exists_liveNode? (moved : EdgeMoved g id slot old input g')
    (hlive : g.liveNode? id = some node) :
    ∃ node', g'.liveNode? id = some node' ∧ node'.kind = node.kind ∧ node'.stamp = node.stamp ∧
      ∀ i, node'.input i = if i = slot then input else node.input i := by
  obtain ⟨hnode, halive⟩ := liveNode?_eq_some_iff.mp hlive
  obtain ⟨slots, hnode'⟩ := moved.kept hnode
  refine ⟨_, liveNode?_eq_some_iff.mpr ⟨hnode', halive⟩, rfl, rfl, fun i => ?_⟩
  have hafter : g'.input id i = { node with slots := slots }.input i := by
    rw [Graph.input, hnode', Option.bind_some]
  rw [← hafter]
  split
  · next he => rw [he, moved.after]
  · next hne => rw [moved.slots i hne, Graph.input, hnode, Option.bind_some]

theorem requireSlotOf_of_liveNode? (hlive : g.liveNode? id = some node) (type : InputType)
    (expected : String) :
    g.requireSlotOf id type expected =
      match node.kind.slotOf type with
      | some slot => .ok slot
      | none => .error (.unexpectedKind id expected node.kind.name) := by
  rw [requireSlotOf, requireAlive_eq_ok_iff.mpr (liveNode?_eq_some_iff.mp hlive)]
  show (match node.kind.slotOf type with | some slot => _ | none => _) = _
  cases node.kind.slotOf type <;> rfl

/-- At a node with a slot of the role the setter sets the slot. -/
theorem run_set_of_position (hlive : g.liveNode? id = some node)
    (hposition : edge.position node.kind = some slot) :
    (edge.set id input).run g = (setInput id slot input).run g := by
  rw [edge.set_eq, Edit.run_ask_bind, requireSlotOf_of_liveNode? hlive, edge.slotOf_type, hposition]

/-- At any other node it refuses. -/
theorem run_set_of_position_eq_none (hlive : g.liveNode? id = some node)
    (hposition : edge.position node.kind = none) :
    (edge.set id input).run g =
      .error (.violation (.unexpectedKind id edge.expected node.kind.name)) g := by
  rw [edge.set_eq, Edit.run_ask_bind, requireSlotOf_of_liveNode? hlive, edge.slotOf_type, hposition]

/-- A node that has a last access is a memory access. -/
theorem exists_memoryAccess? (hnode : g.node? id = some node)
    (hposition : OptionalEdge.lastLocationAccess.position node.kind = some slot) :
    ∃ access, g.memoryAccess? id = some access := by
  unfold memoryAccess?
  rw [hnode]
  cases hkind : node.kind with
  | read | write | rawLoad | rawStore =>
      rw [Option.bind_eq_bind, Option.bind_some, hkind]
      exact ⟨_, rfl⟩
  | _ =>
      rw [hkind] at hposition
      cases hposition

/-- A slot of a role of optional edges takes what the edge takes. -/
theorem fits_iff_takes {info : SlotInfo} (hinfo : node.kind.layout[slot]? = some info)
    (htype : info.inputType = edge.type) : g.Fits info input ↔ ∀ d ∈ input, edge.Takes g d := by
  have hoptional := edge.optional_of_mem_layout node.kind info (List.mem_of_getElem? hinfo) htype
  rw [fits_optional_iff info hoptional, htype]
  exact forall₂_congr fun _ _ => OptionalEdge.takes_iff.symm

/-- The slot of an edge is set if it takes the input. -/
theorem WellFormed.exists_run_setInput_iff (wf : g.WellFormed) (hlive : g.liveNode? id = some node)
    (hposition : edge.position node.kind = some slot) :
    (∃ old g', (setInput id slot input).run g = .ok old g') ↔ ∀ d ∈ input, edge.Takes g d := by
  obtain ⟨info, hinfo, htype⟩ := OptionalEdge.position_eq_some_iff.mp hposition
  obtain ⟨hnode, halive⟩ := liveNode?_eq_some_iff.mp hlive
  rw [← fits_iff_takes hinfo htype]
  have hslotInfo := Node.slotInfo_of_layout hinfo
  constructor
  · rintro ⟨old, g', hrun⟩
    obtain ⟨_, hcheck, -⟩ := run_setInput_eq_ok_iff.mp hrun
    obtain ⟨hfound, -, _, hinfo', hfits⟩ := checkSetInput_eq_ok_iff.mp hcheck
    cases hnode.symm.trans hfound
    cases hslotInfo.symm.trans hinfo'
    exact hfits
  · intro hfits
    have hcheck := checkSetInput_eq_ok_iff.mpr ⟨hnode, halive, info, hslotInfo, hfits⟩
    have hslot := lt_length_of_slotInfo ((wf.node hnode).layout_le (.inl halive)) hslotInfo
    by_cases hsame : node.input slot = input
    · exact ⟨_, g, run_setInput_eq_ok_iff.mpr ⟨node, hcheck, rfl, .inl ⟨hsame, rfl⟩⟩⟩
    · exact ⟨_, _, run_setInput_eq_ok_iff.mpr ⟨node, hcheck, rfl, .inr ⟨hsame, hslot, rfl⟩⟩⟩

/-- **An optional edge is set where it belongs.**  In every graph that a run leads to, for each of
the three edges, at every attached node and with any argument:

* the setter succeeds if and only if the kind of the node has the edge, and the argument is absent
  or may be attached;
* then the edge is in the one slot of the node with its role.  The old content of the slot is
  answered, the slot holds the argument, and no other slot of any node has changed.  The memory
  access and the view of the node show the argument; there is a memory access if the edge is that to
  the last access, and a view if the node is to be lowered;
* at a node without a slot of the role the setter fails by the unexpected kind, and changes
  nothing. -/
theorem Reachable.optional_edges_exact (reachable : g.Reachable)
    (hlive : g.liveNode? id = some node) (edge : OptionalEdge) (input : Option NodeId) :
    ((∃ old g', (edge.set id input).run g = .ok old g') ↔
      (edge.position node.kind).isSome = true ∧ ∀ d ∈ input, edge.Takes g d) ∧
    (∀ old g', (edge.set id input).run g = .ok old g' →
      ∃ slot info, edge.position node.kind = some slot ∧ node.slotInfo slot = some info ∧
        info.inputType = edge.type ∧
        (∀ other info', node.slotInfo other = some info' → info'.inputType = edge.type →
          other = slot) ∧
        EdgeMoved g id slot old input g' ∧
        g'.memoryAccess? id = (g.memoryAccess? id).map (edge.putMemory input) ∧
        g'.access? id = (g.access? id).map (edge.put input) ∧
        (edge = .lastLocationAccess → ∃ access, g.memoryAccess? id = some access) ∧
        (node.kind.isLowerable = true → ∃ view, g.access? id = some view)) ∧
    ((∀ slot info, node.slotInfo slot = some info → info.inputType ≠ edge.type) →
      (edge.set id input).run g =
        .error (.violation (.unexpectedKind id edge.expected node.kind.name)) g) := by
  have wf := reachable.wellFormed
  obtain ⟨hnode, halive⟩ := liveNode?_eq_some_iff.mp hlive
  refine ⟨?_, fun old g' hrun => ?_, fun hnone => ?_⟩
  · cases hposition : edge.position node.kind with
    | none => simp [run_set_of_position_eq_none hlive hposition]
    | some slot =>
        rw [run_set_of_position hlive hposition, wf.exists_run_setInput_iff hlive hposition]
        simp
  · cases hposition : edge.position node.kind with
    | none =>
        rw [run_set_of_position_eq_none hlive hposition] at hrun
        cases hrun
    | some slot =>
        obtain ⟨info, hinfo, htype⟩ := OptionalEdge.position_eq_some_iff_slotInfo.mp hposition
        rw [run_set_of_position hlive hposition] at hrun
        obtain ⟨moved, -⟩ := wf.setInput_undone hrun
        obtain ⟨node', hlive', hkind, hstamp, hinput⟩ := moved.exists_liveNode? hlive
        have hnode' := (liveNode?_eq_some_iff.mp hlive').1
        refine ⟨slot, info, rfl, hinfo, htype, fun other info' hinfo' htype' => ?_, moved,
          memoryAccess?_put hposition hkind hinput hnode hnode',
          access?_put hposition hkind hinput hlive hlive' hstamp, ?_, ?_⟩
        · have hother := OptionalEdge.position_eq_some_iff_slotInfo.mpr ⟨info', hinfo', htype'⟩
          exact (Option.some.inj (hposition.symm.trans hother)).symm
        · rintro rfl
          exact exists_memoryAccess? hnode hposition
        · intro hlowerable
          obtain ⟨view, hview, -⟩ := wf.exists_access hnode halive hlowerable
          exact ⟨view, hview⟩
  · cases hposition : edge.position node.kind with
    | none => exact run_set_of_position_eq_none hlive hposition
    | some slot =>
        obtain ⟨info, hinfo, htype⟩ := OptionalEdge.position_eq_some_iff_slotInfo.mp hposition
        exact absurd htype (hnone slot info hinfo)

/-- The load of `storeThenLoad` is guarded by the store, which checks for null; the constant is no
frame state, and has no guard. -/
theorem optional_edges_exact_storeThenLoad :
    (∃ g' view, (setGuard ⟨6⟩ (some ⟨5⟩)).run storeThenLoad = .ok none g' ∧
      g'.access? ⟨6⟩ = some (.read view) ∧ view.guard = some ⟨5⟩) ∧
    (¬ ∃ old g', (setStateAfter ⟨5⟩ (some ⟨4⟩)).run storeThenLoad = .ok old g') ∧
    (setGuard ⟨4⟩ none).run storeThenLoad =
      .error (.violation (.unexpectedKind ⟨4⟩ "fixed access" "ConstInt")) storeThenLoad := by
  have edges := fun id (h : (storeThenLoad.liveNode? id).isSome = true) edge input =>
    Reachable.optional_edges_exact reachable_storeThenLoad (Option.some_get h).symm edge input
  refine ⟨?_, fun accepted => ?_, ?_⟩
  · obtain ⟨hiff, hexact, -⟩ := edges ⟨6⟩ (by decide +kernel) .guard (some ⟨5⟩)
    have hserves : storeThenLoad.Serves ⟨5⟩ .guard := serves_iff.mpr (by decide +kernel)
    obtain ⟨old, g', hrun⟩ := hiff.mpr ⟨by decide +kernel, fun d hd => Option.some.inj hd ▸ hserves⟩
    obtain ⟨slot, info, hposition, -, -, -, moved, -, hview, -⟩ := hexact old g' hrun
    obtain rfl : slot = 2 := Option.some.inj (hposition.symm.trans (by decide +kernel))
    obtain rfl : old = none := moved.before.symm.trans (by decide +kernel)
    have hread : (storeThenLoad.asRead ⟨6⟩).isSome = true := by decide +kernel
    have hload : storeThenLoad.access? ⟨6⟩ =
        some (.read ((storeThenLoad.asRead ⟨6⟩).get hread)) := rfl
    rw [hload] at hview
    exact ⟨g', _, hrun, hview, rfl⟩
  · have hframe : storeThenLoad.isFrameState ⟨4⟩ = true :=
      ((edges ⟨5⟩ (by decide +kernel) .stateAfter (some ⟨4⟩)).1.mp accepted).2 ⟨4⟩ rfl
    exact absurd hframe (by decide +kernel)
  · refine (edges ⟨4⟩ (by decide +kernel) .guard none).2.2 fun slot info hinfo htype => ?_
    have hposition := OptionalEdge.position_eq_some_iff_slotInfo.mpr ⟨info, hinfo, htype⟩
    exact absurd (Option.isSome_of_eq_some hposition) (by decide +kernel)

end Graph

end SeaOfNodes
