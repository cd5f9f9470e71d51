import SeaOfNodes.Access.View
import SeaOfNodes.Proofs.Graph.WellFormed

/-!
# Renaming what nodes hold

When usages move, an id is exchanged for another one, and for which one depends on the role of the
edge.  A renaming is therefore a function of the role and of the id, and `Node.rename` applies it to
the slots of a node, each in its own role.

Everything that is read off a node follows a renaming: single slots (`input_rename`), the slot of
a role (`inputOf_rename`), and the views of accesses (`asRead_rename` and its like).  Renamings
compose (`rename_rename`), and only what they do to the edges of the node matters
(`rename_congr`).
-/

namespace SeaOfNodes

/-- What takes the place of an id, in the role of the edge that holds it. -/
abbrev Renaming : Type := InputType → NodeId → NodeId

/-- Rename what a slot holds; a slot that nothing describes is left alone. -/
def SlotInfo.rename? (f : Renaming) (info : Option SlotInfo) (input : Option NodeId) :
    Option NodeId :=
  match info with
  | some info => input.map (f info.inputType)
  | none => input

namespace Node

variable {f f' : Renaming} {node : Node} {slot : Nat}

/-- Rename what the slots of a node hold. -/
def rename (f : Renaming) (node : Node) : Node :=
  { node with slots := node.slots.mapIdx fun slot => SlotInfo.rename? f (node.slotInfo slot) }

/-- Rename what an attached node holds.  The slots of other nodes are no edges and stay. -/
def redirect (f : Renaming) (node : Node) : Node := if node.isAlive then node.rename f else node

/-! ## Reading a renamed node -/

@[simp] theorem kind_rename (f : Renaming) (node : Node) : (node.rename f).kind = node.kind := rfl

@[simp] theorem isAlive_rename (f : Renaming) (node : Node) :
    (node.rename f).isAlive = node.isAlive := rfl

@[simp] theorem length_slots_rename (f : Renaming) (node : Node) :
    (node.rename f).slots.length = node.slots.length :=
  List.length_mapIdx

@[simp] theorem slotInfo_rename (f : Renaming) (node : Node) (slot : Nat) :
    (node.rename f).slotInfo slot = node.slotInfo slot := by
  simp only [slotInfo, kind_rename, length_slots_rename]

theorem input_rename (f : Renaming) (node : Node) (slot : Nat) :
    (node.rename f).input slot = SlotInfo.rename? f (node.slotInfo slot) (node.input slot) := by
  unfold input rename
  rw [List.getElem?_mapIdx]
  cases node.slots[slot]? with
  | some input => rfl
  | none => cases node.slotInfo slot <;> rfl

/-- In a slot that is described there is the renamed input. -/
theorem input_rename_of_slotInfo {info : SlotInfo} (h : node.slotInfo slot = some info) :
    (node.rename f).input slot = (node.input slot).map (f info.inputType) := by
  rw [input_rename, h]
  rfl

/-- In a slot of the layout there is the renamed input. -/
theorem input_rename_of_layout (f : Renaming) {kind : NodeKind} (hkind : node.kind = kind)
    {info : SlotInfo} (h : kind.layout[slot]? = some info) :
    (node.rename f).input slot = (node.input slot).map (f info.inputType) :=
  input_rename_of_slotInfo (slotInfo_of_layout (hkind ▸ h))

theorem inputOf_rename (f : Renaming) (node : Node) (type : InputType) :
    (node.rename f).inputOf type = (node.inputOf type).map (f type) := by
  unfold inputOf
  rw [kind_rename]
  cases hslot : node.kind.slotOf type with
  | none => rfl
  | some slot =>
      obtain ⟨info, hinfo, rfl⟩ := NodeKind.exists_layout_of_slotOf hslot
      rw [Option.bind_some, Option.bind_some, input_rename_of_slotInfo (slotInfo_of_layout hinfo)]

@[simp] theorem kind_redirect (f : Renaming) (node : Node) :
    (node.redirect f).kind = node.kind := by
  unfold redirect
  split <;> rfl

@[simp] theorem state_redirect (f : Renaming) (node : Node) :
    (node.redirect f).state = node.state := by
  unfold redirect
  split <;> rfl

@[simp] theorem stamp_redirect (f : Renaming) (node : Node) :
    (node.redirect f).stamp = node.stamp := by
  unfold redirect
  split <;> rfl

@[simp] theorem bci_redirect (f : Renaming) (node : Node) : (node.redirect f).bci = node.bci := by
  unfold redirect
  split <;> rfl

@[simp] theorem flags_redirect (f : Renaming) (node : Node) :
    (node.redirect f).flags = node.flags := by
  unfold redirect
  split <;> rfl

@[simp] theorem length_slots_redirect (f : Renaming) (node : Node) :
    (node.redirect f).slots.length = node.slots.length := by
  unfold redirect
  split <;> simp

theorem redirect_of_isAlive (h : node.isAlive = true) (f : Renaming) :
    node.redirect f = node.rename f := if_pos h

@[simp] theorem isAlive_redirect (f : Renaming) (node : Node) :
    (node.redirect f).isAlive = node.isAlive := by
  unfold isAlive
  rw [state_redirect]

/-! ## Comparing renamed nodes -/

/-- Nodes are equal when they agree on what they are and on every slot. -/
theorem ext_input {a b : Node} (hkind : a.kind = b.kind) (hstamp : a.stamp = b.stamp)
    (hstate : a.state = b.state) (hbci : a.bci = b.bci) (hflags : a.flags = b.flags)
    (hlength : a.slots.length = b.slots.length)
    (hinput : ∀ slot < a.slots.length, a.input slot = b.input slot) : a = b := by
  have hslots : a.slots = b.slots := by
    apply List.ext_getElem hlength
    intro slot ha hb
    simpa [input, List.getElem?_eq_getElem ha, List.getElem?_eq_getElem hb] using hinput slot ha
  cases a
  cases b
  simp_all

/-- Two renamings that agree on the edges of a node rename it alike. -/
theorem rename_congr
    (h : ∀ slot info d, node.slotInfo slot = some info → node.input slot = some d →
      f info.inputType d = f' info.inputType d) : node.rename f = node.rename f' := by
  refine ext_input rfl rfl rfl rfl rfl (by simp) ?_
  intro slot _
  rw [input_rename, input_rename]
  cases hinfo : node.slotInfo slot with
  | none => rfl
  | some info =>
      cases hinput : node.input slot with
      | none => rfl
      | some d => exact congrArg some (h slot info d hinfo hinput)

theorem rename_eq_self
    (h : ∀ slot info d, node.slotInfo slot = some info → node.input slot = some d →
      f info.inputType d = d) : node.rename f = node := by
  refine ext_input rfl rfl rfl rfl rfl (by simp) ?_
  intro slot _
  rw [input_rename]
  cases hinfo : node.slotInfo slot with
  | none => rfl
  | some info =>
      cases hinput : node.input slot with
      | none => rfl
      | some d => exact congrArg some (h slot info d hinfo hinput)

/-- One renaming after the other is a renaming. -/
theorem rename_rename (f f' : Renaming) (node : Node) :
    (node.rename f).rename f' = node.rename fun type d => f' type (f type d) := by
  refine ext_input rfl rfl rfl rfl rfl (by simp) ?_
  intro slot _
  rw [input_rename, input_rename, input_rename, slotInfo_rename]
  cases node.slotInfo slot with
  | none => rfl
  | some info => exact Option.map_map ..

theorem redirect_eq_self
    (h : ∀ slot info d, node.slotInfo slot = some info → node.input slot = some d →
      f info.inputType d = d) : node.redirect f = node := by
  unfold redirect
  rw [rename_eq_self h, ite_self]

theorem redirect_redirect (f f' : Renaming) (node : Node) :
    (node.redirect f).redirect f' = node.redirect fun type d => f' type (f type d) := by
  by_cases h : node.isAlive = true
  · rw [redirect_of_isAlive h, redirect_of_isAlive h, redirect_of_isAlive (by simpa using h),
      rename_rename]
  · simp [redirect, h]

end Node

/-! ## Renamed views -/

/-- Rename what a read holds. -/
def ReadView.rename (f : Renaming) (view : ReadView) : ReadView :=
  { view with
    control := f .control view.control
    address := f .address view.address
    guard := view.guard.map (f .guard)
    lastLocationAccess := view.lastLocationAccess.map (f .memory) }

/-- Rename what a write holds. -/
def WriteView.rename (f : Renaming) (view : WriteView) : WriteView :=
  { view with
    control := f .control view.control
    address := f .address view.address
    value := f .value view.value
    guard := view.guard.map (f .guard)
    stateAfter := view.stateAfter.map (f .state)
    lastLocationAccess := view.lastLocationAccess.map (f .memory) }

/-- Rename what a compare-and-swap holds. -/
def SwapView.rename (f : Renaming) (view : SwapView) : SwapView :=
  { view with
    control := f .control view.control
    object := f .value view.object
    offset := f .value view.offset
    expected := f .value view.expected
    newValue := f .value view.newValue
    stateAfter := view.stateAfter.map (f .state) }

namespace Graph

variable {g g' : Graph} {id : NodeId} {f : Renaming}

theorem asRead_rename (h : g'.liveNode? id = (g.liveNode? id).map (Node.rename f)) :
    g'.asRead id = (g.asRead id).map (ReadView.rename f) := by
  unfold asRead
  rw [h]
  cases g.liveNode? id with
  | none => rfl
  | some node =>
      cases hkind : node.kind with
      | read access =>
          have hcontrol : (node.rename f).input 0 = _ := Node.input_rename_of_layout f hkind rfl
          have haddress : (node.rename f).input 1 = _ := Node.input_rename_of_layout f hkind rfl
          simp only [Option.map_some, Option.bind_eq_bind, Option.bind_some, Node.kind_rename,
            hkind, Node.inputOf_rename, hcontrol, haddress]
          cases node.input 0 <;> cases node.input 1 <;> rfl
      | _ => simp [hkind]

theorem asWrite_rename (h : g'.liveNode? id = (g.liveNode? id).map (Node.rename f)) :
    g'.asWrite id = (g.asWrite id).map (WriteView.rename f) := by
  unfold asWrite
  rw [h]
  cases g.liveNode? id with
  | none => rfl
  | some node =>
      cases hkind : node.kind with
      | write access initialization =>
          have hcontrol : (node.rename f).input 0 = _ := Node.input_rename_of_layout f hkind rfl
          have haddress : (node.rename f).input 1 = _ := Node.input_rename_of_layout f hkind rfl
          have hvalue : (node.rename f).input 2 = _ := Node.input_rename_of_layout f hkind rfl
          simp only [Option.map_some, Option.bind_eq_bind, Option.bind_some, Node.kind_rename,
            hkind, Node.inputOf_rename, hcontrol, haddress, hvalue]
          cases node.input 0 <;> cases node.input 1 <;> cases node.input 2 <;> rfl
      | _ => simp [hkind]

theorem asCompareAndSwap_rename (h : g'.liveNode? id = (g.liveNode? id).map (Node.rename f)) :
    g'.asCompareAndSwap id = (g.asCompareAndSwap id).map (SwapView.rename f) := by
  unfold asCompareAndSwap
  rw [h]
  cases g.liveNode? id with
  | none => rfl
  | some node =>
      cases hkind : node.kind with
      | compareAndSwap valueKind location =>
          have hcontrol : (node.rename f).input 0 = _ := Node.input_rename_of_layout f hkind rfl
          have hobject : (node.rename f).input 1 = _ := Node.input_rename_of_layout f hkind rfl
          have hoffset : (node.rename f).input 2 = _ := Node.input_rename_of_layout f hkind rfl
          have hexpected : (node.rename f).input 3 = _ := Node.input_rename_of_layout f hkind rfl
          have hnewValue : (node.rename f).input 4 = _ := Node.input_rename_of_layout f hkind rfl
          simp only [Option.map_some, Option.bind_eq_bind, Option.bind_some, Node.kind_rename,
            hkind, Node.inputOf_rename, hcontrol, hobject, hoffset, hexpected, hnewValue]
          cases node.input 0 <;> cases node.input 1 <;> cases node.input 2 <;>
            cases node.input 3 <;> cases node.input 4 <;> rfl
      | _ => simp [hkind]

end Graph

end SeaOfNodes
