import SeaOfNodes.Proofs.Graph.Verify

/-!
# Verification is exact

`Graph.verify` goes from node to node.  From the side of a user it compares counts, and only for
the targets that the user holds; from the side of a target it asks no more than whether a noted
user exists and holds it.  Neither side alone says that slots and usage lists agree.

`Graph.Consistent` is what a client wants to know of a graph, stated for all pairs of nodes at once.
**`verify_eq_ok_iff_consistent`** says that the two one-sided checks together decide it, for any
graph value whatsoever: no run is assumed to have led to it, its usage lists may hold ids of nobody,
and its slots may hold anything.

### What is assumed

`verify` walks over the slots that a node has, and does not miss those that it lacks.  So the
statement is about graphs whose attached nodes have all their fixed slots; there, and only there,
a described slot is a slot that exists (`lt_length_of_slotInfo`).
-/

namespace SeaOfNodes

namespace Graph

variable {g : Graph} {id d u : NodeId} {node : Node}

/-- How many slots of `user` hold `target`, if `user` is attached; none otherwise. -/
def edges (g : Graph) (user target : NodeId) : Nat :=
  match g.node? user with
  | some node => node.edges target
  | none => 0

/-- Every attached node has its fixed slots. -/
def LaidOut (g : Graph) : Prop :=
  ∀ {id node}, g.node? id = some node → node.isAlive = true →
    node.kind.layout.length ≤ node.slots.length

/-- **What verification decides.** -/
structure Consistent (g : Graph) : Prop where
  /-- Every slot of an attached node is described, by the layout or as a further value. -/
  described : ∀ {id node}, g.node? id = some node → node.isAlive = true →
    ∀ slot < node.slots.length, (node.slotInfo slot).isSome = true
  /-- What is described is filled unless it is optional, and holds what serves in its role. -/
  fits : ∀ {id node}, g.node? id = some node → node.isAlive = true →
    ∀ slot info, node.slotInfo slot = some info → g.Fits info (node.input slot)
  /-- Whoever is noted at a node is noted once for each of its edges, and nobody else is. -/
  count_usages : ∀ {d node}, g.node? d = some node → ∀ u, (g.usages d).count u = g.edges u d
  /-- A node that is not inserted yet is in no use. -/
  detached : ∀ {id node}, g.node? id = some node → node.state = .detached → g.usages id = []
  /-- A node that left the graph is in no use and holds nothing. -/
  buried : ∀ {id node}, g.node? id = some node → node.state = .replaced ∨ node.state = .deleted →
    g.usages id = [] ∧ ∀ slot, node.input slot = none

/-! ## From the checks to all pairs -/

/-- There is an edge where an attached node holds the target, and only there. -/
theorem edges_pos_iff :
    0 < g.edges u d ↔
      ∃ user, g.node? u = some user ∧ user.isAlive = true ∧ some d ∈ user.slots := by
  unfold edges
  rcases g.node? u with _ | user
  · simp
  · by_cases halive : user.isAlive = true <;> simp [Node.edges, halive]

/-- Of an attached node the edges are the slots. -/
theorem edges_of_attached (hnode : g.node? u = some node) (halive : node.isAlive = true) :
    g.edges u d = node.slots.count (some d) := by
  unfold edges
  rw [hnode]
  exact if_pos halive

/-- What verification finds out about an attached node. -/
theorem verifyNode_of_verify (h : g.verify = .ok ()) (hnode : g.node? id = some node)
    (halive : node.isAlive = true) :
    g.SlotsFit node ∧
      (∀ d, some d ∈ node.slots → node.slots.count (some d) = (g.usages d).count id) ∧
      ∀ u ∈ g.usages id, ∃ user, g.node? u = some user ∧ user.isAlive = true ∧
        some id ∈ user.slots :=
  (verifyNode_eq_ok_iff_of_attached ((NodeState.isAlive_iff _).mp halive)).mp
    (verify_eq_ok_iff.mp h id node hnode)

/-- Who is noted at a node of a verified graph has an edge to it. -/
theorem edges_pos_of_verify (h : g.verify = .ok ()) (hnode : g.node? d = some node)
    (hmem : u ∈ g.usages d) : 0 < g.edges u d := by
  have hcheck := verify_eq_ok_iff.mp h d node hnode
  rcases hstate : node.state with _ | _ | _ | _
  case attached =>
    obtain ⟨-, -, hnoted⟩ := (verifyNode_eq_ok_iff_of_attached hstate).mp hcheck
    exact edges_pos_iff.mpr (hnoted u hmem)
  case detached =>
    rw [(verifyNode_eq_ok_iff_of_detached hstate).mp hcheck] at hmem
    cases hmem
  case replaced =>
    rw [((verifyNode_eq_ok_iff_of_buried (.inl hstate)).mp hcheck).1] at hmem
    cases hmem
  case deleted =>
    rw [((verifyNode_eq_ok_iff_of_buried (.inr hstate)).mp hcheck).1] at hmem
    cases hmem

/-- **The one-sided checks give the counts of all pairs.**  Where there is an edge, the user has
compared the counts; where there is none, the target would have found a noted user out. -/
theorem count_usages_of_verify (h : g.verify = .ok ()) (hnode : g.node? d = some node)
    (u : NodeId) : (g.usages d).count u = g.edges u d := by
  rcases Nat.eq_zero_or_pos (g.edges u d) with hzero | hpos
  · rw [hzero, List.count_eq_zero]
    intro hmem
    exact absurd (edges_pos_of_verify h hnode hmem) (by omega)
  · obtain ⟨user, huser, halive, hheld⟩ := edges_pos_iff.mp hpos
    obtain ⟨-, hcounts, -⟩ := verifyNode_of_verify h huser halive
    rw [edges_of_attached huser halive, hcounts d hheld]

theorem consistent_of_verify (hlayout : g.LaidOut) (h : g.verify = .ok ()) : g.Consistent where
  described {id node} hnode halive slot hslot := by
    obtain ⟨info, hinfo, -⟩ := (verifyNode_of_verify h hnode halive).1 slot hslot
    rw [hinfo]
    rfl
  fits {id node} hnode halive slot info hinfo := by
    have hslot := lt_length_of_slotInfo (hlayout hnode halive) hinfo
    obtain ⟨found, hfound, hfits⟩ := (verifyNode_of_verify h hnode halive).1 slot hslot
    cases hinfo.symm.trans hfound
    exact hfits
  count_usages hnode := count_usages_of_verify h hnode
  detached {id node} hnode hstate :=
    (verifyNode_eq_ok_iff_of_detached hstate).mp (verify_eq_ok_iff.mp h id node hnode)
  buried {id node} hnode hstate :=
    (verifyNode_eq_ok_iff_of_buried hstate).mp (verify_eq_ok_iff.mp h id node hnode)

namespace Consistent

theorem slotsFit (h : g.Consistent) (hnode : g.node? id = some node)
    (halive : node.isAlive = true) : g.SlotsFit node := by
  intro slot hslot
  obtain ⟨info, hinfo⟩ := Option.isSome_iff_exists.mp (h.described hnode halive slot hslot)
  exact ⟨info, hinfo, h.fits hnode halive slot info hinfo⟩

/-- What an attached node holds notes it once for each of its slots. -/
theorem count_usages_of_held (h : g.Consistent) (hnode : g.node? id = some node)
    (halive : node.isAlive = true) (hheld : some d ∈ node.slots) :
    node.slots.count (some d) = (g.usages d).count id := by
  obtain ⟨slot, hslot⟩ := mem_slots_iff.mp hheld
  obtain ⟨info, -, hfits⟩ := h.slotsFit hnode halive slot (lt_length_of_input hslot)
  rw [hslot] at hfits
  obtain ⟨found, hfound, -⟩ := hfits
  rw [h.count_usages hfound, edges_of_attached hnode halive]

theorem verify (h : g.Consistent) : g.verify = .ok () := by
  rw [verify_eq_ok_iff]
  intro id node hnode
  rcases hstate : node.state with _ | _ | _ | _
  case detached => exact (verifyNode_eq_ok_iff_of_detached hstate).mpr (h.detached hnode hstate)
  case attached =>
    have halive : node.isAlive = true := (NodeState.isAlive_iff _).mpr hstate
    rw [verifyNode_eq_ok_iff_of_attached hstate]
    refine ⟨h.slotsFit hnode halive, fun d => h.count_usages_of_held hnode halive, ?_⟩
    intro u hmem
    rw [← edges_pos_iff, ← h.count_usages hnode]
    exact List.count_pos_iff.mpr hmem
  case replaced =>
    exact (verifyNode_eq_ok_iff_of_buried (.inl hstate)).mpr (h.buried hnode (.inl hstate))
  case deleted =>
    exact (verifyNode_eq_ok_iff_of_buried (.inr hstate)).mpr (h.buried hnode (.inr hstate))

end Consistent

/-- **Verification is exact.**  A graph whose attached nodes have all their fixed slots passes if
and only if it is consistent, whatever else it holds. -/
theorem verify_eq_ok_iff_consistent (hlayout : g.LaidOut) : g.verify = .ok () ↔ g.Consistent :=
  ⟨consistent_of_verify hlayout, Consistent.verify⟩

/-- A usage that is lost is found: when the store forgets one of its two usages by the load, the
graph is laid out as before and verification says no. -/
theorem not_consistent_dropUse :
    (storeThenLoad.dropUse ⟨5⟩ ⟨6⟩).LaidOut ∧
      ¬ (storeThenLoad.dropUse ⟨5⟩ ⟨6⟩).Consistent := by
  have hlayout : (storeThenLoad.dropUse ⟨5⟩ ⟨6⟩).LaidOut := by
    intro id node hnode halive
    have wf := reachable_storeThenLoad.wellFormed
    exact (wf.node ((node?_dropUse ..).symm.trans hnode)).layout_le (.inl halive)
  refine ⟨hlayout, ?_⟩
  rw [← verify_eq_ok_iff_consistent hlayout]
  have hrefused : (storeThenLoad.dropUse ⟨5⟩ ⟨6⟩).verify.isOk = false := by decide +kernel
  intro hverify
  rw [hverify] at hrefused
  cases hrefused

/-- A node without its slots: verification does not miss them, although the first is mandatory. -/
example :
    let g := Graph.new.allocate
      { kind := .newInstance 16, stamp := .control, slots := [], state := .attached, bci := 0,
        flags := {} }
    g.verify = .ok () ∧ ¬ g.LaidOut := by
  refine ⟨rfl, ?_⟩
  intro hlayout
  exact absurd (@hlayout ⟨1⟩ _ rfl rfl) (by decide)

end Graph

end SeaOfNodes
