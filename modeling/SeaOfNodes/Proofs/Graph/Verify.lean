import SeaOfNodes.Proofs.Graph.Invariance

/-!
# Verification never fails

What the check of one node accepts depends on the state of the node, and there is one equivalence
for each (`verifyNode_eq_ok_iff_of_attached` and its like).  The invariant is all that
`Graph.verify` asks for: a balanced graph passes (`Balanced.verify`).
With `Reachable.wellFormed` so does every graph that a run leads to, and
**`Reachable.edges_symmetric`** says what that amounts to for its edges, without mention of the
invariant.
-/

namespace SeaOfNodes

namespace Graph

variable {g : Graph} {id : NodeId} {node : Node}

/-- The entries of a graph are its nodes. -/
theorem mem_entries : (id, node) ∈ g.entries ↔ g.node? id = some node := by
  unfold entries Arena.entries
  rw [List.mem_filterMap]
  constructor
  · rintro ⟨other, -, h⟩
    obtain ⟨found, hfound, he⟩ := Option.map_eq_some_iff.mp h
    cases he
    exact hfound
  · intro h
    have hmem : id ∈ g.nodes.ids := (g.nodes.mem_ids id).mpr (lt_size_of_node? h)
    exact ⟨id, hmem, Option.map_eq_some_iff.mpr ⟨node, h, rfl⟩⟩

theorem verify_eq_ok_iff :
    g.verify = .ok () ↔ ∀ id node, g.node? id = some node → g.verifyNode id node = .ok () := by
  unfold verify
  rw [forM_eq_ok_iff]
  constructor
  · intro h id node hnode
    exact h (id, node) (mem_entries.mpr hnode)
  · rintro h ⟨id, node⟩ hmem
    exact h id node (mem_entries.mp hmem)

theorem checkNoted_eq_ok_iff {input : NodeId} :
    g.checkNoted id node input = .ok () ↔
      node.slots.count (some input) = (g.usages input).count id := by
  unfold checkNoted
  rw [guarded_eq_ok_iff, count_inputs]
  exact and_iff_left rfl

theorem checkUser_eq_ok_iff {user : NodeId} :
    g.checkUser id user = .ok () ↔
      ∃ node, g.node? user = some node ∧ node.isAlive = true ∧ some id ∈ node.slots := by
  unfold checkUser
  rw [guarded_eq_ok_iff]
  cases g.node? user with
  | none => simp
  | some node => simp [Node.mem_inputs, pure, Except.pure]

/-! ## The check of one node -/

theorem verifyNode_eq_ok_iff_of_attached (h : node.state = .attached) :
    g.verifyNode id node = .ok () ↔
      g.SlotsFit node ∧
        (∀ d, some d ∈ node.slots → node.slots.count (some d) = (g.usages d).count id) ∧
        ∀ u ∈ g.usages id, ∃ user, g.node? u = some user ∧ user.isAlive = true ∧
          some id ∈ user.slots := by
  unfold verifyNode
  rw [h]
  simp only [bind_eq_ok_iff, exists_unit_iff, forM_eq_ok_iff, checkInputs_eq_ok_iff,
    checkNoted_eq_ok_iff, checkUser_eq_ok_iff, Node.mem_inputs]

theorem verifyNode_eq_ok_iff_of_detached (h : node.state = .detached) :
    g.verifyNode id node = .ok () ↔ g.usages id = [] := by
  unfold verifyNode
  rw [h]
  exact checkUnused_eq_ok_iff

/-- A node holds nothing when none of its slots is filled. -/
theorem inputs_eq_nil_iff : node.inputs = [] ↔ ∀ slot, node.input slot = none := by
  simp only [List.eq_nil_iff_forall_not_mem, Node.mem_inputs, mem_slots_iff, not_exists,
    Option.eq_none_iff_forall_ne_some]
  exact forall_comm

theorem verifyNode_eq_ok_iff_of_buried (h : node.state = .replaced ∨ node.state = .deleted) :
    g.verifyNode id node = .ok () ↔ g.usages id = [] ∧ ∀ slot, node.input slot = none := by
  have hcheck : g.verifyNode id node =
      if g.usageCount id + node.inputs.length = 0 then return () else
        throw (.danglingUsages id (g.usageCount id + node.inputs.length)) := by
    unfold verifyNode
    rcases h with h | h <;> rw [h]
  rw [hcheck, guarded_eq_ok_iff, Nat.add_eq_zero_iff, usageCount, List.length_eq_zero_iff,
    List.length_eq_zero_iff, inputs_eq_nil_iff]
  exact and_iff_left rfl

/-! ## The invariant passes -/

/-- What is not attached is in no use. -/
theorem Balanced.usages_eq_nil (b : g.Balanced) (h : g.isAlive id = false) :
    g.usages id = [] := by
  apply List.eq_nil_iff_forall_not_mem.mpr
  intro user hmem
  obtain ⟨node, hnode, halive, hslots⟩ := b.mem_usages_iff.mp hmem
  obtain ⟨slot, hslot⟩ := mem_slots_iff.mp hslots
  obtain ⟨_, -, hserves⟩ := b.serves_of_input hnode halive hslot
  rw [(serves_iff.mp hserves).1] at h
  cases h

/-- **A balanced graph passes verification.** -/
theorem Balanced.verify (b : g.Balanced) : g.verify = .ok () := by
  rw [verify_eq_ok_iff]
  intro id node hnode
  have placed := b.placed hnode
  have hunused : node.isAlive = false → g.usages id = [] := by
    intro hdead
    exact b.usages_eq_nil (by rw [isAlive, hnode]; exact hdead)
  rcases hstate : node.state with _ | _ | _ | _
  case detached =>
    have hdead : node.isAlive = false := by rw [Node.isAlive, hstate]; rfl
    exact (verifyNode_eq_ok_iff_of_detached hstate).mpr (hunused hdead)
  case attached =>
    have halive : node.isAlive = true := (NodeState.isAlive_iff _).mpr hstate
    rw [verifyNode_eq_ok_iff_of_attached hstate]
    refine ⟨placed.slotsFit halive, fun d _ => ?_, fun user huser => b.mem_usages_iff.mp huser⟩
    rw [placed.count_usages, Node.edges, if_pos halive]
  case replaced | deleted =>
    have hburied : node.state = .replaced ∨ node.state = .deleted := by simp [hstate]
    rw [verifyNode_eq_ok_iff_of_buried hburied]
    refine ⟨hunused (by rw [Node.isAlive, hstate]; rfl), fun slot => ?_⟩
    rw [Node.input, placed.slots_eq_nil hburied]
    rfl

/-- In a mandatory slot there is something. -/
theorem WellFormed.input_isSome (wf : g.WellFormed) (h : g.node? id = some node)
    (halive : node.isAlive = true) {slot : Nat} {info : SlotInfo}
    (hinfo : node.slotInfo slot = some info) (hrequired : info.optional = false) :
    (node.input slot).isSome = true := by
  have placed := wf.node h
  have hslot := lt_length_of_slotInfo (placed.layout_le (.inl halive)) hinfo
  obtain ⟨found, hfound, hfits⟩ := placed.slotsFit halive slot hslot
  rw [hinfo] at hfound
  cases hfound
  obtain ⟨d, hinput, -⟩ := hfits.exists_serves hrequired
  rw [hinput]
  rfl

/-- There are slots past the layout in nodes that take further values only. -/
theorem Balanced.variadic_isSome (b : g.Balanced) (h : g.node? id = some node)
    (halive : node.isAlive = true) (hlonger : node.kind.layout.length < node.slots.length) :
    node.kind.variadic.isSome = true := by
  obtain ⟨info, hinfo, -⟩ := (b.placed h).slotsFit halive _ hlonger
  rw [slotInfo_tail (Nat.le_refl _) hlonger] at hinfo
  obtain ⟨type, htype, -⟩ := Option.map_eq_some_iff.mp hinfo
  rw [htype]
  rfl

/-- **Edges are kept twice, and they are kept alike.**  In every graph that a run leads to:

* an attached node occurs in a usage list once for each slot that holds the target, and whoever is
  not attached occurs in none;
* what a slot of an attached node holds is attached and allows the role of the slot;
* an attached node has all its fixed slots, further ones only if its kind takes further values, and
  none that must be filled is empty;
* what is not attached is in no use, and what has left the graph holds nothing;
* verification passes. -/
theorem Reachable.edges_symmetric (h : g.Reachable) :
    (∀ target user,
      (∀ node, g.node? user = some node → node.isAlive = true →
        (g.usages target).count user = node.slots.count (some target)) ∧
      (g.isAlive user = false → user ∉ g.usages target)) ∧
    (∀ id node, g.node? id = some node → node.isAlive = true →
      (∀ slot d, node.input slot = some d →
        ∃ info found, node.slotInfo slot = some info ∧ g.node? d = some found ∧
          found.isAlive = true ∧ found.kind.allows info.inputType = true) ∧
      node.kind.layout.length ≤ node.slots.length ∧
      (node.kind.layout.length < node.slots.length → node.kind.variadic.isSome = true) ∧
      (∀ slot info, node.slotInfo slot = some info → info.optional = false →
        (node.input slot).isSome = true)) ∧
    (∀ id node, g.node? id = some node → node.isAlive = false →
      g.usages id = [] ∧ (node.state ≠ .detached → node.slots = [])) ∧
    g.verify = .ok () := by
  have wf := h.wellFormed
  refine ⟨?_, ?_, ?_, wf.verify⟩
  · intro target user
    constructor
    · intro node hnode halive
      rw [(wf.node hnode).count_usages, Node.edges, if_pos halive]
    · intro hdead
      exact List.count_eq_zero.mp (wf.count_usages_eq_zero hdead target)
  · intro id node hnode halive
    refine ⟨?_, (wf.node hnode).layout_le (.inl halive), wf.variadic_isSome hnode halive, ?_⟩
    · intro slot d hd
      obtain ⟨info, hinfo, found, hfound, hserves⟩ := wf.serves_of_input hnode halive hd
      exact ⟨info, found, hinfo, hfound, hserves⟩
    · intro slot info hinfo hrequired
      exact wf.input_isSome hnode halive hinfo hrequired
  · intro id node hnode hdead
    refine ⟨wf.usages_eq_nil (by rw [isAlive, hnode]; exact hdead), ?_⟩
    intro hstate
    apply (wf.node hnode).slots_eq_nil
    cases hs : node.state with
    | detached => exact absurd hs hstate
    | attached => rw [Node.isAlive, hs] at hdead; cases hdead
    | replaced => exact .inl rfl
    | deleted => exact .inr rfl

/-- The load uses the store twice: control comes from it, and so does the memory. -/
theorem edges_symmetric_storeThenLoad :
    storeThenLoad.Reachable ∧ (storeThenLoad.usages ⟨5⟩).count ⟨6⟩ = 2 ∧
      storeThenLoad.verify = .ok () := by
  obtain ⟨hcount, -, -, hverify⟩ := Reachable.edges_symmetric reachable_storeThenLoad
  have hnode : storeThenLoad.node? ⟨6⟩ = some ((storeThenLoad.node? ⟨6⟩).get (by decide +kernel)) :=
    (Option.some_get _).symm
  refine ⟨reachable_storeThenLoad, ?_, hverify⟩
  rw [(hcount ⟨5⟩ ⟨6⟩).1 _ hnode (by decide +kernel)]
  decide +kernel

end Graph

end SeaOfNodes
