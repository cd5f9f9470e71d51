import Mathlib.Data.List.Forall2
import SeaOfNodes.Proofs.Graph.Checks
import SeaOfNodes.Proofs.Graph.Lookup
import SeaOfNodes.Proofs.Location.Indexed

/-!
# Well-formed graphs

The invariant of the graph.  Its heart is edge symmetry, as one equation between numbers:

> a node occurs in the usage list of `target` exactly as often as it has edges to `target`.

`Node.edges` counts the slots that hold the target, and is zero for a node that is not attached, so
that the equation also says that no such node is noted as a user of anything.  Around it
`Graph.Placed` collects what the checks of single slots enforce (`slotsFit`), and that a node which
left the graph holds nothing (`slots_eq_nil`).  A graph is balanced when all its nodes are placed,
its locations are found by their keys, and the distinguished node and location are there.

Balance holds whatever nodes enter the graph.  A graph is well formed when moreover no attached node
lacks a fixed slot (`layout_le`); no edit takes a fixed slot away, but one that inserts a node does
not look for slots which the node does not have, so that this depends on how nodes are built.

### How the invariant is kept

Each elementary change keeps `Balanced` under the condition that its edit has checked.  There are
six of them: a slot is relinked, a further value is appended or erased, a node is allocated, is
attached, or is buried.  Each touches one node; about all others `Placed.frame` says what is
needed, and that is little: the node is noted as often as before, and what it holds still serves.
Only burying makes a node serve no more, and it does so for a node that nothing refers to.
-/

namespace SeaOfNodes

/-- How many edges a node has to `target`; a node that is not attached has none. -/
def Node.edges (node : Node) (target : NodeId) : Nat :=
  if node.isAlive then node.slots.count (some target) else 0

/-- A node that is in a graph, or may still be inserted, has all its fixed slots. -/
def Node.KeepsLayout (node : Node) : Prop :=
  node.isAlive = true ∨ node.state = .detached → node.kind.layout.length ≤ node.slots.length

/-- A node that takes further values has no fixed slots. -/
theorem NodeKind.layout_of_variadic {kind : NodeKind} {type : InputType}
    (h : kind.variadic = some type) : kind.layout = [] := by
  cases kind <;> first | rfl | cases h

/-- A slot of the layout is described by it. -/
theorem Node.slotInfo_of_layout {node : Node} {slot : Nat} {info : SlotInfo}
    (h : node.kind.layout[slot]? = some info) : node.slotInfo slot = some info := by
  unfold slotInfo
  rw [h]

namespace Graph

/-- What the graph owes to the node at `id`, and the node to the graph. -/
structure Placed (g : Graph) (id : NodeId) (node : Node) : Prop where
  /-- The node is noted as a user once for each of its edges. -/
  count_usages : ∀ target, (g.usages target).count id = node.edges target
  /-- Every slot of an attached node is described and rightly filled. -/
  slotsFit : node.isAlive = true → g.SlotsFit node
  /-- A node that left the graph holds nothing. -/
  slots_eq_nil : node.state = .replaced ∨ node.state = .deleted → node.slots = []

/-- A node that is placed, and has all its fixed slots. -/
structure WellPlaced (g : Graph) (id : NodeId) (node : Node) : Prop extends g.Placed id node where
  /-- The fixed slots are there. -/
  layout_le : node.KeepsLayout

/-- **The invariant of the graph**, whatever nodes enter it. -/
structure Balanced (g : Graph) : Prop where
  /-- Every node is placed. -/
  placed : ∀ {id node}, g.node? id = some node → g.Placed id node
  /-- Nobody is a user who is not there. -/
  absent : ∀ {id}, g.node? id = none → ∀ target, (g.usages target).count id = 0
  /-- The start node is one. -/
  start : ∃ node, g.node? g.start = some node ∧ node.kind = .start
  /-- The location that overlaps every other is known. -/
  any : g.locations.get? LocationUniverse.anyId = some .any
  /-- The key map of the locations agrees with their arena. -/
  indexed : g.locations.Indexed

/-- **The invariant of a graph that built nodes enter.** -/
structure WellFormed (g : Graph) : Prop extends g.Balanced where
  /-- Every node has all its fixed slots. -/
  keepsLayout : ∀ {id node}, g.node? id = some node → node.KeepsLayout

theorem WellFormed.node {g : Graph} (wf : g.WellFormed) {id : NodeId} {node : Node}
    (h : g.node? id = some node) : g.WellPlaced id node :=
  ⟨wf.placed h, wf.keepsLayout h⟩

variable {g g' : Graph} {id user target : NodeId} {node node' : Node}

/-! ## Reading the invariant -/

theorem input_eq_some_iff {slot : Nat} {d : NodeId} :
    node.input slot = some d ↔ node.slots[slot]? = some (some d) := by
  unfold Node.input
  cases node.slots[slot]? <;> simp

theorem lt_length_of_input {slot : Nat} {d : NodeId} (h : node.input slot = some d) :
    slot < node.slots.length := by
  rw [input_eq_some_iff] at h
  exact (List.getElem?_eq_some_iff.mp h).1

/-- A slot that does not exist holds nothing. -/
theorem input_of_length_le {slot : Nat} (h : node.slots.length ≤ slot) :
    node.input slot = none := by
  rw [Node.input, List.getElem?_eq_none h]
  rfl

/-- In a node that has all its fixed slots, every slot that is described exists. -/
theorem lt_length_of_slotInfo (hlayout : node.kind.layout.length ≤ node.slots.length) {slot : Nat}
    {info : SlotInfo} (hinfo : node.slotInfo slot = some info) : slot < node.slots.length := by
  by_cases hslot : slot < node.kind.layout.length
  · exact Nat.lt_of_lt_of_le hslot hlayout
  · unfold Node.slotInfo at hinfo
    rw [List.getElem?_eq_none (Nat.le_of_not_lt hslot)] at hinfo
    dsimp only at hinfo
    split at hinfo
    · assumption
    · cases hinfo

/-- What fits a mandatory slot is something that serves in its role. -/
theorem Fits.exists_serves {info : SlotInfo} {input : Option NodeId} (h : g.Fits info input)
    (hrequired : info.optional = false) : ∃ d, input = some d ∧ g.Serves d info.inputType := by
  cases input with
  | none =>
      rw [Fits, hrequired] at h
      cases h
  | some d => exact ⟨d, rfl, h⟩

/-- Only a base with an offset can be used as an address. -/
theorem allows_address_iff {kind : NodeKind} :
    kind.allows .address = true ↔ kind = .offsetAddress := by
  cases kind with
  | read access | write access _ =>
      cases hcheck : access.nullCheck <;>
        simp [NodeKind.allows, NodeKind.allowedUsages, hcheck, InputTypes.ofList]
  | _ => simp [NodeKind.allows, NodeKind.allowedUsages, InputTypes.ofList]

theorem mem_slots_iff {d : NodeId} :
    some d ∈ node.slots ↔ ∃ slot, node.input slot = some d := by
  simp only [input_eq_some_iff, List.mem_iff_getElem?]

namespace Balanced

/-- What an attached node holds serves in the role of the slot. -/
theorem serves_of_input (b : g.Balanced) (h : g.node? id = some node)
    (halive : node.isAlive = true) {slot : Nat} {d : NodeId} (hd : node.input slot = some d) :
    ∃ info, node.slotInfo slot = some info ∧ g.Serves d info.inputType := by
  obtain ⟨info, hinfo, hfits⟩ := (b.placed h).slotsFit halive slot (lt_length_of_input hd)
  exact ⟨info, hinfo, by rwa [hd] at hfits⟩

/-- Of an attached node that has all its fixed slots, each holds what fits it. -/
theorem fits_of_layout_le (b : g.Balanced) (h : g.node? id = some node)
    (halive : node.isAlive = true) (hlayout : node.kind.layout.length ≤ node.slots.length)
    {slot : Nat} {info : SlotInfo} (hinfo : node.kind.layout[slot]? = some info) :
    g.Fits info (node.input slot) := by
  have hslot : slot < node.slots.length :=
    Nat.lt_of_lt_of_le (List.getElem?_eq_some_iff.mp hinfo).1 hlayout
  obtain ⟨found, hfound, hfits⟩ := (b.placed h).slotsFit halive slot hslot
  rw [Node.slotInfo_of_layout hinfo] at hfound
  cases hfound
  exact hfits

/-- The users of a node are the attached nodes that hold it. -/
theorem mem_usages_iff (b : g.Balanced) :
    user ∈ g.usages target ↔
      ∃ node, g.node? user = some node ∧ node.isAlive = true ∧ some target ∈ node.slots := by
  rw [← List.count_pos_iff]
  cases h : g.node? user with
  | none => simp [b.absent h]
  | some node =>
      rw [(b.placed h).count_usages, Node.edges]
      by_cases halive : node.isAlive = true <;> simp [halive]

/-- Whoever holds a node is noted there. -/
theorem count_usages_pos_of_input (b : g.Balanced) (h : g.node? id = some node)
    (halive : node.isAlive = true) {slot : Nat} {d : NodeId} (hd : node.input slot = some d) :
    0 < (g.usages d).count id :=
  List.count_pos_iff.mpr (b.mem_usages_iff.mpr ⟨node, h, halive, mem_slots_iff.mpr ⟨slot, hd⟩⟩)

/-- What nothing refers to is held by no attached node. -/
theorem ne_of_unused (b : g.Balanced) (hunused : g.usages target = [])
    (h : g.node? id = some node) (halive : node.isAlive = true) {slot : Nat} {d : NodeId}
    (hd : node.input slot = some d) : d ≠ target := by
  rintro rfl
  have hpos := b.count_usages_pos_of_input h halive hd
  rw [hunused] at hpos
  cases hpos

end Balanced

namespace WellFormed

/-- What a slot of the layout holds fits it. -/
theorem fits_of_layout (wf : g.WellFormed) (h : g.node? id = some node)
    (halive : node.isAlive = true) {kind : NodeKind} (hkind : node.kind = kind) {slot : Nat}
    {info : SlotInfo} (hinfo : kind.layout[slot]? = some info) : g.Fits info (node.input slot) := by
  subst hkind
  exact wf.fits_of_layout_le h halive ((wf.node h).layout_le (.inl halive)) hinfo

/-- A mandatory slot of the layout holds something that serves in its role. -/
theorem serves_of_layout (wf : g.WellFormed) (h : g.node? id = some node)
    (halive : node.isAlive = true) {kind : NodeKind} (hkind : node.kind = kind) (slot : Nat)
    {info : SlotInfo} (hinfo : kind.layout[slot]? = some info) (hrequired : info.optional = false) :
    ∃ d, node.input slot = some d ∧ g.Serves d info.inputType :=
  (wf.fits_of_layout h halive hkind hinfo).exists_serves hrequired

/-- An address has a base. -/
theorem exists_base (wf : g.WellFormed) {address : NodeId}
    (h : g.Serves address .address) :
    ∃ base, g.input address 0 = some base ∧ g.Serves base .value := by
  obtain ⟨node, hnode, halive, hallows⟩ := h
  obtain ⟨base, hbase, hserves⟩ :=
    wf.serves_of_layout hnode halive (allows_address_iff.mp hallows) 0 rfl rfl
  exact ⟨base, by rw [input, hnode]; exact hbase, hserves⟩

end WellFormed

/-! ## The frame -/

/-- **The frame of a change.**  A node that is noted as often as before stays placed as long as
what it holds still serves. -/
theorem Placed.frame (h : g.Placed id node)
    (hcount : ∀ d, (g'.usages d).count id = (g.usages d).count id)
    (hserves : ∀ slot d type, node.isAlive = true → node.input slot = some d →
      g.Serves d type → g'.Serves d type) : g'.Placed id node where
  count_usages d := by rw [hcount, h.count_usages]
  slotsFit halive slot hslot := by
    obtain ⟨info, hinfo, hfits⟩ := h.slotsFit halive slot hslot
    exact ⟨info, hinfo, hfits.mono fun d type hd => hserves slot d type halive hd⟩
  slots_eq_nil := h.slots_eq_nil

/-- Where one node is changed or new and no less attached than before, every node serves as
before. -/
theorem serves_of_update (h : ∀ x, g'.node? x = if id = x then some node' else g.node? x)
    (hold : ∀ n, g.node? id = some n → n.isAlive = true →
      node'.isAlive = true ∧ node'.kind = n.kind)
    {d : NodeId} {type : InputType} (hd : g.Serves d type) : g'.Serves d type := by
  apply hd.mono
  intro found hfound halive
  rw [h]
  split
  · next he =>
    subst he
    exact ⟨node', rfl, hold found hfound halive⟩
  · exact ⟨found, hfound, halive, rfl⟩

/-- A change of one node, or a new one, keeps the invariant when the node is placed afterwards
and no other node is noted more or less often than before. -/
theorem Balanced.update (b : g.Balanced)
    (hstart : g'.start = g.start) (hlocations : g'.locations = g.locations)
    (h : ∀ x, g'.node? x = if id = x then some node' else g.node? x)
    (hkind : ∀ n, g.node? id = some n → node'.kind = n.kind)
    (hcount : ∀ x ≠ id, ∀ d, (g'.usages d).count x = (g.usages d).count x)
    (hserves : ∀ x n slot d type, x ≠ id → g.node? x = some n → n.isAlive = true →
      n.input slot = some d → g.Serves d type → g'.Serves d type)
    (hplaced : g'.Placed id node') : g'.Balanced where
  placed {x n} hx := by
    rw [h] at hx
    split at hx
    · next he =>
      cases hx
      exact he ▸ hplaced
    · next hne =>
      exact (b.placed hx).frame (hcount x (Ne.symm hne))
        fun slot d type halive => hserves x n slot d type (Ne.symm hne) hx halive
  absent {x} hx d := by
    rw [h] at hx
    split at hx
    · cases hx
    · next hne => rw [hcount x (Ne.symm hne), b.absent hx]
  start := by
    obtain ⟨found, hfound, hfoundKind⟩ := b.start
    rw [hstart, h]
    split
    · next he =>
      subst he
      exact ⟨node', rfl, (hkind found hfound).trans hfoundKind⟩
    · exact ⟨found, hfound, hfoundKind⟩
  any := hlocations ▸ b.any
  indexed := hlocations ▸ b.indexed

/-- What a change of an existing node looks like from outside. -/
theorem node?_of_modify {f : Node → Node} (hnode : g.node? id = some node)
    (h : ∀ x, g'.node? x = if id = x then (g.node? x).map f else g.node? x) (x : NodeId) :
    g'.node? x = if id = x then some (f node) else g.node? x := by
  rw [h]
  split
  · next he => rw [← he, hnode]; rfl
  · rfl

/-! ## Changes of slots -/

section Slots

variable {slot : Nat} {info : SlotInfo} {new : Option NodeId}

theorem SlotsFit.mono (h : g.SlotsFit node)
    (keep : ∀ d type, g.Serves d type → g'.Serves d type) : g'.SlotsFit node := by
  intro slot hslot
  obtain ⟨info, hinfo, hfits⟩ := h slot hslot
  exact ⟨info, hinfo, hfits.mono fun d type _ => keep d type⟩

/-- The slots of a node that is built with an input for every fixed slot fit if the inputs fit the
layout one by one. -/
theorem slotsFit_withInputs_iff {kind : NodeKind} {inputs : List (Option NodeId)}
    (hlength : inputs.length = kind.layout.length) (stamp : Stamp) :
    g.SlotsFit (.withInputs kind stamp inputs) ↔ List.Forall₂ g.Fits kind.layout inputs := by
  have hslots : (Node.withInputs kind stamp inputs).slots = inputs := by
    rw [Node.withInputs, hlength, Nat.sub_self]
    exact List.append_nil _
  have hinput : ∀ (slot : Nat) (hslot : slot < inputs.length),
      (Node.withInputs kind stamp inputs).input slot = inputs[slot] := by
    intro slot hslot
    rw [Node.input, hslots, List.getElem?_eq_getElem hslot]
    rfl
  have hinfo : ∀ (slot : Nat) (hslot : slot < kind.layout.length),
      (Node.withInputs kind stamp inputs).slotInfo slot = some kind.layout[slot] :=
    fun slot hslot => Node.slotInfo_of_layout (List.getElem?_eq_getElem hslot)
  rw [List.forall₂_iff_get, SlotsFit, hslots]
  constructor
  · refine fun hfit => ⟨hlength.symm, fun slot hlayout hslot => ?_⟩
    obtain ⟨info, hfound, hfits⟩ := hfit slot hslot
    rw [hinfo slot hlayout] at hfound
    cases hfound
    rwa [hinput slot hslot] at hfits
  · rintro ⟨-, hfits⟩ slot hslot
    have hlayout : slot < kind.layout.length := hlength ▸ hslot
    refine ⟨kind.layout[slot], hinfo slot hlayout, ?_⟩
    rw [hinput slot hslot]
    exact hfits slot hlayout hslot

/-- The description of a slot depends on the kind of the node and on whether the slot exists. -/
theorem slotInfo_slots {slots : List (Option NodeId)}
    (hslot : slot < slots.length ↔ slot < node.slots.length) :
    { node with slots := slots }.slotInfo slot = node.slotInfo slot := by
  simp only [Node.slotInfo, hslot]

/-- A further value is described by the tail of its kind. -/
theorem slotInfo_tail (hlayout : node.kind.layout.length ≤ slot)
    (hslot : slot < node.slots.length) :
    node.slotInfo slot = node.kind.variadic.map NodeKind.tailSlot := by
  simp only [Node.slotInfo, List.getElem?_eq_none hlayout, hslot, if_true]

/-- New slots for an attached node keep the invariant when they fit and the usage lists are told. -/
theorem Balanced.changeSlots (b : g.Balanced) (hnode : g.node? user = some node)
    (halive : node.isAlive = true) (slots : List (Option NodeId)) (hframe : SameFrame g g')
    (hfind : ∀ x, g'.node? x =
      if user = x then (g.node? x).map fun node => { node with slots := slots } else g.node? x)
    (hcount : ∀ d, (g'.usages d).count user = slots.count (some d))
    (hothers : ∀ x ≠ user, ∀ d, (g'.usages d).count x = (g.usages d).count x)
    (hfit : g.SlotsFit { node with slots := slots }) : g'.Balanced := by
  let node' : Node := { node with slots := slots }
  have hfind' := node?_of_modify hnode hfind
  have hold : ∀ n, g.node? user = some n → n.isAlive = true →
      node'.isAlive = true ∧ node'.kind = n.kind := by
    intro n hn _
    cases hnode.symm.trans hn
    exact ⟨halive, rfl⟩
  have hserves : ∀ d type, g.Serves d type → g'.Serves d type :=
    fun d type => serves_of_update hfind' hold
  refine b.update hframe.start hframe.locations hfind' ?_ hothers
    (fun _ _ _ d type _ _ _ _ => hserves d type) ⟨?_, ?_, ?_⟩
  · intro n hn
    cases hnode.symm.trans hn
    rfl
  · intro d
    rw [hcount, Node.edges, if_pos (show node'.isAlive = true from halive)]
  · exact fun _ => hfit.mono hserves
  · intro h
    have hattached : node.state = .attached := (NodeState.isAlive_iff _).mp halive
    exact absurd h (by simp [hattached])

theorem input_set (h : slot < node.slots.length) (other : Nat) :
    { node with slots := node.slots.set slot new }.input other =
      if slot = other then new else node.input other := by
  simp only [Node.input, List.getElem?_set, h]
  by_cases he : slot = other <;> simp [he]

/-- Filling a slot with what fits it keeps the invariant. -/
theorem Balanced.relink (b : g.Balanced) (hnode : g.node? user = some node)
    (halive : node.isAlive = true) (hslot : slot < node.slots.length)
    (hinfo : node.slotInfo slot = some info) (hfits : g.Fits info new) :
    (g.relink user slot (node.input slot) new).Balanced := by
  have placed := b.placed hnode
  have hlength : (node.slots.set slot new).length = node.slots.length := List.length_set
  refine b.changeSlots hnode halive (node.slots.set slot new)
    (g.sameFrame_relink user slot _ new) ?_ ?_ ?_ ?_
  · intro x
    rw [node?_relink]
    split
    · next he => rw [← he, hnode]; rfl
    · rfl
  · intro d
    have hold : node.slots[slot] = node.input slot := by
      simp [Node.input, List.getElem?_eq_getElem hslot]
    rw [count_usages_relink, placed.count_usages, Node.edges, if_pos halive,
      List.count_set hslot, hold]
    simp
  · intro x hx d
    simp [count_usages_relink, Ne.symm hx]
  · intro other hother
    replace hother : other < node.slots.length := hlength ▸ hother
    rw [slotInfo_slots (by rw [hlength]), input_set hslot]
    split
    · next he => exact ⟨info, he ▸ hinfo, hfits⟩
    · exact placed.slotsFit halive other hother

/-- Appending a further value keeps the invariant. -/
theorem Balanced.append (b : g.Balanced) (hnode : g.node? user = some node)
    (halive : node.isAlive = true) {type : InputType} (hvariadic : node.kind.variadic = some type)
    (hserves : g.Serves target type) :
    ((g.modifyNode user fun node => { node with slots := node.slots ++ [some target] }).addUse
      target user).Balanced := by
  have placed := b.placed hnode
  have hlayout : node.kind.layout.length ≤ node.slots.length := by
    rw [NodeKind.layout_of_variadic hvariadic]
    exact Nat.zero_le _
  refine b.changeSlots hnode halive (node.slots ++ [some target])
    ((g.sameFrame_modifyNode user _).trans (sameFrame_addUse _ target user)) ?_ ?_ ?_ ?_
  · intro x
    rw [node?_addUse, node?_modifyNode]
    split
    · next he => rw [← he, hnode]; rfl
    · rfl
  · intro d
    rw [usages_addUse, usages_modifyNode, List.count_append, List.count_singleton]
    have hcount : (g.usages d).count user = node.slots.count (some d) := by
      rw [placed.count_usages, Node.edges, if_pos halive]
    by_cases hd : target = d <;> simp [hd, hcount]
  · intro x hx d
    rw [usages_addUse, usages_modifyNode]
    by_cases hd : target = d <;> simp [hd, Ne.symm hx]
  · intro other hother
    have hlength : (node.slots ++ [some target]).length = node.slots.length + 1 := by simp
    replace hother : other < (node.slots ++ [some target]).length := hother
    by_cases hlast : other < node.slots.length
    · rw [slotInfo_slots (iff_of_true hother hlast)]
      obtain ⟨info, hinfo, hfits⟩ := placed.slotsFit halive other hlast
      refine ⟨info, hinfo, ?_⟩
      simpa [Node.input, List.getElem?_append_left hlast] using hfits
    · -- the new slot lies past the layout, so that the tail describes it
      obtain rfl : other = node.slots.length := by omega
      refine ⟨NodeKind.tailSlot type, ?_, ?_⟩
      · have htail : { node with slots := node.slots ++ [some target] }.slotInfo node.slots.length =
            node.kind.variadic.map NodeKind.tailSlot := slotInfo_tail hlayout hother
        rw [htail, hvariadic]
        rfl
      · have hinput : { node with slots := node.slots ++ [some target] }.input node.slots.length =
            some target := by simp [Node.input]
        rw [hinput]
        exact hserves

/-- What is left of a list when an entry is erased, as a count. -/
theorem count_eraseIdx {slots : List (Option NodeId)} {a : Option NodeId}
    (h : slots[slot]? = some a) (b : Option NodeId) :
    (slots.eraseIdx slot).count b = slots.count b - if a = b then 1 else 0 := by
  obtain ⟨hslot, rfl⟩ := List.getElem?_eq_some_iff.mp h
  have hsplit := List.take_append_drop slot slots
  rw [List.drop_eq_getElem_cons hslot] at hsplit
  have hcount := congrArg (List.count b) hsplit
  rw [List.count_append, List.count_cons] at hcount
  rw [List.eraseIdx_eq_take_drop_succ, List.count_append, ← hcount]
  simp
  omega

/-- Erasing a further value keeps the invariant. -/
theorem Balanced.erase (b : g.Balanced) (hnode : g.node? user = some node)
    (halive : node.isAlive = true) (htarget : node.input slot = some target)
    (hfixed : node.kind.layout.length ≤ slot) :
    ((g.modifyNode user fun node => { node with slots := node.slots.eraseIdx slot }).dropUse
      target user).Balanced := by
  have placed := b.placed hnode
  have hslot := lt_length_of_input htarget
  have hlength : (node.slots.eraseIdx slot).length = node.slots.length - 1 :=
    List.length_eraseIdx_of_lt hslot
  refine b.changeSlots hnode halive (node.slots.eraseIdx slot)
    ((g.sameFrame_modifyNode user _).trans (sameFrame_dropUse _ target user)) ?_ ?_ ?_ ?_
  · intro x
    rw [node?_dropUse, node?_modifyNode]
    split
    · next he => rw [← he, hnode]; rfl
    · rfl
  · intro d
    have hcount : (g.usages d).count user = node.slots.count (some d) := by
      rw [placed.count_usages, Node.edges, if_pos halive]
    rw [usages_dropUse, usages_modifyNode, count_eraseIdx (input_eq_some_iff.mp htarget)]
    by_cases hd : target = d <;> simp [hd, hcount, count_swapRemove]
  · intro x hx d
    rw [usages_dropUse, usages_modifyNode]
    by_cases hd : target = d <;> simp [hd, Ne.symm hx, count_swapRemove]
  · intro other hother
    replace hother : other < (node.slots.eraseIdx slot).length := hother
    by_cases hbefore : other < slot
    · rw [slotInfo_slots (by omega)]
      obtain ⟨info, hinfo, hfits⟩ := placed.slotsFit halive other (by omega)
      refine ⟨info, hinfo, ?_⟩
      simpa [Node.input, List.getElem?_eraseIdx_of_lt hbefore] using hfits
    · -- what is behind the erased value moves up; all of it is described by the tail
      obtain ⟨info, hinfo, hfits⟩ := placed.slotsFit halive (other + 1) (by omega)
      rw [slotInfo_tail (by omega) (by omega)] at hinfo
      have htail : { node with slots := node.slots.eraseIdx slot }.slotInfo other =
          node.kind.variadic.map NodeKind.tailSlot :=
        slotInfo_tail (Nat.le_trans hfixed (Nat.le_of_not_lt hbefore)) hother
      refine ⟨info, htail.trans hinfo, ?_⟩
      simpa [Node.input, List.getElem?_eraseIdx_of_ge (Nat.le_of_not_lt hbefore)] using hfits

end Slots

end Graph

end SeaOfNodes
