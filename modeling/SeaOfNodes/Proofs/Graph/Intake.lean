import SeaOfNodes.Proofs.Graph.Verify

/-!
# What nodes bring along

A node is checked when it is inserted, slot by slot: each slot that it has must be described and
rightly filled.  The slots that it lacks are not looked for.  The constructors of `Node` make all
fixed slots, and no edit takes one away as long as the node is in the graph; but a node that has
left the graph has no slots any more, and whoever holds a copy of it can insert it again
(`not_whole_deletedInstance`).

`Graph.Whole` is what a client relies on: no mandatory slot is empty, and however the graph goes on,
a slot of the layout can be set without leaving the slots that there are.
**`Reaches.accepted_whole_iff`** says that an accepted node is whole exactly if it brought its fixed
slots along, and that a copy of a node that has left the graph is always accepted.

### What is load-bearing

Having the fixed slots is a property of a node that lasts: as long as the node is in the graph, or
may still be inserted, no change gives or takes a fixed slot (`Changes.hasLayout_iff`).  A slot that
is lacking at first is lacking for ever, so that a node that is not whole can be told: some node
that serves in the role of the slot can always be found, and there is no place to put it.
-/

namespace SeaOfNodes

/-- The node has all its fixed slots. -/
def Node.HasLayout (node : Node) : Prop := node.kind.layout.length ≤ node.slots.length

instance (node : Node) : Decidable node.HasLayout :=
  inferInstanceAs (Decidable (node.kind.layout.length ≤ node.slots.length))

namespace Graph

variable {admits : Node → Prop} {g g' h : Graph} {id : NodeId} {node : Node}

/-- **The node at `id` is whole.** -/
structure Whole (g : Graph) (id : NodeId) : Prop where
  /-- What must be filled is filled, with what serves in the role of the slot. -/
  filled : ∀ {node slot info}, g.node? id = some node → node.kind.layout[slot]? = some info →
    info.optional = false → ∃ d, node.input slot = some d ∧ g.Serves d info.inputType
  /-- Whatever happens to the graph, setting a fixed slot is answered. -/
  inRange : ∀ {h node slot input k}, Reaches (fun _ => True) g h → h.node? id = some node →
    slot < node.kind.layout.length → (setInput id slot input).run h ≠ .error .outOfRange k

/-! ## Fixed slots over time -/

/-- **No fixed slot comes or goes**, as long as the node is in the graph or may still be
inserted. -/
theorem Changes.hasLayout_iff (changes : Changes admits g g') (hnode : g.node? id = some node) :
    ∃ node', g'.node? id = some node' ∧ node'.kind = node.kind ∧
      (node'.isAlive = true ∨ node'.state = .detached → (node'.HasLayout ↔ node.HasLayout)) := by
  induction changes with
  | refl => exact ⟨node, hnode, rfl, fun _ => .rfl⟩
  | tail _ change ih =>
      obtain ⟨label, change⟩ := change
      obtain ⟨before, hbefore, hkind, hlayout⟩ := ih
      obtain ⟨after, hafter, fate⟩ := change.fate hbefore
      refine ⟨after, hafter, ?_, fun hstate => ?_⟩
      · cases fate with
        | stays _ kind => exact kind.trans hkind
        | attached | deleted | replaced => exact hkind
      · cases fate with
        | stays _ kind _ state layout =>
            rw [Node.isAlive, state] at hstate
            rw [← hlayout hstate, Node.HasLayout, kind]
            exact layout
        | attached _ state => exact hlayout (.inr state)
        | deleted | replaced => rcases hstate with hstate | hstate <;> cases hstate

/-! ## Setting a slot that does not exist -/

/-- A fixed slot that an attached node lacks is not found when it is set to what fits it. -/
theorem run_setInput_of_lacking (hnode : g.node? id = some node) (halive : node.isAlive = true)
    {slot : Nat} {info : SlotInfo} (hinfo : node.kind.layout[slot]? = some info)
    (hlacks : node.slots.length ≤ slot) {d : NodeId} (hserves : g.Serves d info.inputType) :
    (setInput id slot (some d)).run g = .error .outOfRange g := by
  have hcheck : g.checkSetInput id slot (some d) = .ok node :=
    checkSetInput_eq_ok_iff.mpr ⟨hnode, halive, info, Node.slotInfo_of_layout hinfo, hserves⟩
  rw [run_setInput, hcheck]
  dsimp only
  rw [input_of_length_le hlacks, if_neg (Option.some_ne_none d).symm,
    if_neg (Nat.not_lt.mpr hlacks)]

/-- Only of an attached node can a slot not be found. -/
theorem lacking_of_outOfRange {slot : Nat} {input : Option NodeId}
    (hrun : (setInput id slot input).run g = .error .outOfRange g') :
    ∃ node, g.node? id = some node ∧ node.isAlive = true ∧ node.slots.length ≤ slot := by
  rw [run_setInput] at hrun
  cases hcheck : g.checkSetInput id slot input with
  | error => simp [hcheck] at hrun
  | ok node =>
      obtain ⟨hnode, halive, -⟩ := checkSetInput_eq_ok_iff.mp hcheck
      refine ⟨node, hnode, halive, Nat.le_of_not_lt fun hslot => ?_⟩
      rw [hcheck] at hrun
      dsimp only at hrun
      rw [if_pos hslot] at hrun
      split at hrun <;> cases hrun

/-- A node without any slot, which is accepted whatever its kind. -/
def bare (kind : NodeKind) : Node where
  kind := kind
  stamp := .void
  slots := []
  state := .detached
  bci := 0
  flags := {}

theorem run_add_of_slots_eq_nil (h : node.slots = []) :
    (add node).run g = .ok g.nextId (g.insert node) := by
  have hcheck : g.checkInputs g.nextId node = .ok () := by
    rw [checkInputs_eq_ok_iff]
    intro slot hslot
    rw [h] at hslot
    exact absurd hslot (Nat.not_lt_zero slot)
  rw [run_add, hcheck]

/-- In every role some kind serves. -/
theorem exists_allows (type : InputType) : ∃ kind : NodeKind, kind.allows type = true := by
  cases type with
  | value => exact ⟨.constNull, rfl⟩
  | control | memory => exact ⟨.start, rfl⟩
  | state => exact ⟨.frameState 0, rfl⟩
  | guard => exact ⟨.nullCheck, rfl⟩
  | address => exact ⟨.offsetAddress, rfl⟩

/-- A fixed slot that a node lacks can be found out: what fits it cannot be put there. -/
theorem exists_outOfRange (hnode : g.node? id = some node) (halive : node.isAlive = true)
    (hlacks : node.slots.length < node.kind.layout.length) :
    ∃ h d, Reaches (fun _ => True) g h ∧ h.node? id = some node ∧
      (setInput id node.slots.length (some d)).run h = .error .outOfRange h := by
  obtain ⟨kind, hallows⟩ := exists_allows node.kind.layout[node.slots.length].inputType
  have hadd : (add (bare kind)).run g = .ok g.nextId (g.insert (bare kind)) :=
    run_add_of_slots_eq_nil rfl
  have hne : g.nextId ≠ id := by
    rintro rfl
    rw [node?_nextId] at hnode
    cases hnode
  have hnode' : (g.insert (bare kind)).node? id = some node := by
    rw [node?_insert, if_neg hne, hnode]
  have hserves : (g.insert (bare kind)).Serves g.nextId
      node.kind.layout[node.slots.length].inputType :=
    ⟨_, by rw [node?_insert, if_pos rfl], rfl, hallows⟩
  refine ⟨_, g.nextId, ?_, hnode', run_setInput_of_lacking hnode' halive
    (List.getElem?_eq_getElem hlacks) (Nat.le_refl _) hserves⟩
  rw [← Edit.after_of_run_ok hadd]
  exact .edit (.refl g) (.add trivial)

/-! ## Wholeness -/

/-- **An attached node is whole exactly if it has its fixed slots.** -/
theorem Balanced.whole_iff (b : g.Balanced) (hnode : g.node? id = some node)
    (halive : node.isAlive = true) : g.Whole id ↔ node.HasLayout := by
  constructor
  · intro whole
    refine Nat.le_of_not_lt fun hlacks => ?_
    obtain ⟨h, d, reached, hnode', hrun⟩ := exists_outOfRange hnode halive hlacks
    exact whole.inRange reached hnode' hlacks hrun
  · intro hlayout
    constructor
    · intro found slot info hfound hinfo hrequired
      cases hnode.symm.trans hfound
      exact (b.fits_of_layout_le hnode halive hlayout hinfo).exists_serves hrequired
    · intro h found slot input k reached hfound hslot hrun
      obtain ⟨checked, hchecked, hcheckedAlive, hlacks⟩ := lacking_of_outOfRange hrun
      cases hfound.symm.trans hchecked
      obtain ⟨node', hnode', -, hiff⟩ := Changes.hasLayout_iff (reached.changes b) hnode
      cases hfound.symm.trans hnode'
      have := (hiff (.inl hcheckedAlive)).mpr hlayout
      unfold Node.HasLayout at this
      omega

/-- What an attachment makes of the node. -/
theorem node?_of_attach (hrun : (attach id).run g = .ok () g') :
    ∃ node, g.node? id = some node ∧ node.state = .detached ∧
      g'.node? id = some { node with state := .attached } := by
  rw [run_attach] at hrun
  cases hcheck : g.checkAttach id with
  | error => simp [hcheck] at hrun
  | ok =>
      rw [hcheck] at hrun
      cases hrun
      obtain ⟨node, hnode, hstate, -⟩ := checkAttach_eq_ok_iff.mp hcheck
      refine ⟨node, hnode, hstate, ?_⟩
      rw [node?_registerInputs, node?_modifyNode, if_pos rfl, hnode]
      rfl

/-- **What is accepted is whole exactly if it has brought its fixed slots along.**  In every graph
that a run leads to, over any nodes, and for every node:

* if the node is added, it is whole if and only if it has its fixed slots;
* if it is allocated first and attached later, whatever happens in between, the same is true;
* if it is a copy of a node of the graph that was replaced or deleted, it is always accepted, and
  has its fixed slots only if its kind has none. -/
theorem Reaches.accepted_whole_iff (reached : Reaches (fun _ => True) new g) (node : Node) :
    (∀ id g', (add node).run g = .ok id g' → (g'.Whole id ↔ node.HasLayout)) ∧
    (∀ h h', Reaches (fun _ => True) ((addDetached node).after g) h →
      (attach g.nextId).run h = .ok () h' → (h'.Whole g.nextId ↔ node.HasLayout)) ∧
    ∀ id, g.node? id = some node → node.state = .replaced ∨ node.state = .deleted →
      (∃ g', (add node).run g = .ok g.nextId g') ∧
        (node.HasLayout ↔ node.kind.layout = []) := by
  refine ⟨fun id g' hrun => ?_, fun h h' later hrun => ?_, fun id hnode hburied => ?_⟩
  · have reached' : Reaches (fun _ => True) new ((add node).after g) := .edit reached (.add trivial)
    rw [Edit.after_of_run_ok hrun] at reached'
    obtain ⟨-, rfl, rfl⟩ := run_add_eq_ok_iff.mp hrun
    have hnode' : (g.insert node).node? g.nextId =
        some { node with bci := g.nextBci, state := .attached } := by
      rw [node?_insert, if_pos rfl]
    have hwhole := reached'.balanced.whole_iff hnode' rfl
    exact hwhole
  · -- what is allocated is the node, and up to the attachment it neither loses nor gets a slot
    have allocated : Reaches (fun _ => True) new ((addDetached node).after g) :=
      .edit reached (.addDetached trivial)
    have hallocated : ((addDetached node).after g).node? g.nextId =
        some { node with bci := g.nextBci, state := .detached } := by
      have hfind := g.node?_allocate g.nextId { node with bci := g.nextBci, state := .detached }
      rwa [if_pos rfl] at hfind
    have changes := later.changes allocated.balanced
    have attached : Reaches (fun _ => True) h h' := by
      rw [← Edit.after_of_run_ok hrun]
      exact .edit (.refl h) (.attach _)
    have b := changes.balanced allocated.balanced
    have b' := (attached.changes b).balanced b
    obtain ⟨found, hfound, hstate, hfound'⟩ := node?_of_attach hrun
    obtain ⟨node', hnode', -, hlayout⟩ := Changes.hasLayout_iff changes hallocated
    cases hfound.symm.trans hnode'
    have hwhole := b'.whole_iff hfound' rfl
    exact hwhole.trans (hlayout (.inr hstate))
  · have hslots := (reached.balanced.placed hnode).slots_eq_nil hburied
    refine ⟨⟨_, run_add_of_slots_eq_nil hslots⟩, ?_⟩
    rw [Node.HasLayout, hslots, List.length_nil, Nat.le_zero, List.length_eq_zero_iff]

/-- A node that was built is whole when it is added. -/
theorem accepted_whole_newInstance :
    ∃ g', (add (.withInputs (.newInstance 16) (.object true) [some ⟨0⟩])).run new = .ok ⟨1⟩ g' ∧
      g'.Whole ⟨1⟩ := by
  have hfit : new.SlotsFit (.withInputs (.newInstance 16) (.object true) [some ⟨0⟩]) := by
    rw [slotsFit_withInputs_iff rfl]
    exact .cons ⟨startNode, rfl, rfl, rfl⟩ .nil
  have hrun := run_add_eq_ok_iff.mpr ⟨hfit, rfl, rfl⟩
  obtain ⟨hadd, -, -⟩ := Reaches.accepted_whole_iff (.refl new)
    (.withInputs (.newInstance 16) (.object true) [some ⟨0⟩])
  exact ⟨_, hrun, (hadd _ _ hrun).mpr (by decide)⟩

/-- An allocation that was deleted again. -/
def deletedInstance : Graph := (delete ⟨1⟩).after ((newInstance ⟨0⟩ 16).after new)

/-- The copy of the deleted allocation is accepted.  Its control slot must be filled and is empty,
and it cannot be filled any more: the slot does not exist. -/
theorem not_whole_deletedInstance :
    deletedInstance.Reachable ∧ ∃ node g', deletedInstance.node? ⟨1⟩ = some node ∧
      node.state = .deleted ∧ (add node).run deletedInstance = .ok ⟨2⟩ g' ∧
      g'.input ⟨2⟩ 0 = none ∧
      (setInput ⟨2⟩ 0 (some ⟨0⟩)).run g' = .error .outOfRange g' ∧ ¬ g'.Whole ⟨2⟩ := by
  obtain ⟨node, hnode, hstate, hslots, hkind⟩ : ∃ node, deletedInstance.node? ⟨1⟩ = some node ∧
      node.state = .deleted ∧ node.slots = [] ∧ node.kind = .newInstance 16 :=
    ⟨_, rfl, by decide +kernel⟩
  let copy : Node := { node with bci := deletedInstance.nextBci, state := .attached }
  have hnext : deletedInstance.nextId = ⟨2⟩ := by decide +kernel
  have hadd := run_add_of_slots_eq_nil (g := deletedInstance) hslots
  rw [hnext] at hadd
  have hcopy : (deletedInstance.insert node).node? ⟨2⟩ = some copy := by
    rw [node?_insert, if_pos hnext]
  have hlacks : copy.slots.length ≤ 0 := Nat.le_of_eq (congrArg List.length hslots)
  have hinfo : copy.kind.layout[0]? = some .control := by
    show node.kind.layout[0]? = some .control
    rw [hkind]
    rfl
  have hserves : (deletedInstance.insert node).Serves ⟨0⟩ .control := by
    refine ⟨startNode, ?_, rfl, rfl⟩
    rw [node?_insert, hnext]
    rfl
  have hset := run_setInput_of_lacking hcopy rfl hinfo hlacks hserves
  refine ⟨.edit (.edit (.refl new) (.newInstance _ _)) (.delete _), node, _, hnode, hstate, hadd,
    ?_, hset, fun whole => ?_⟩
  · rw [input, hcopy, Option.bind_some, input_of_length_le hlacks]
  · exact whole.inRange (.refl _) hcopy (List.getElem?_eq_some_iff.mp hinfo).1 hset

end Graph

end SeaOfNodes
