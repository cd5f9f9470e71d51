import Mathlib.Logic.Relation
import SeaOfNodes.Proofs.Graph.Verify

/-!
# Control chains

Every fixed node but the start has one control predecessor.  Going back from one to the next leads
to the start node, or round in a circle; in the first case the nodes on the way are the control
chain of the node that one came from.

A control chain is determined by its last node (**`ControlChain.unique`**), since the start node has
no predecessor.
-/

namespace SeaOfNodes

namespace Graph

variable {g : Graph} {id prev : NodeId} {node : Node}

/-- `g.ControlChain ids id`: the nodes `ids`, of which `id` is the last, follow one another in
control flow, from the start node on. -/
inductive ControlChain (g : Graph) : List NodeId → NodeId → Prop where
  /-- The start node alone. -/
  | start : ControlChain g [g.start] g.start
  /-- One more node follows. -/
  | next {ids : List NodeId} {prev id : NodeId} (chain : ControlChain g ids prev)
      (hprev : g.controlPredecessor id = some prev) : ControlChain g (ids ++ [id]) id

/-- The nodes that control reaches from the start node. -/
def FollowsStart (g : Graph) (id : NodeId) : Prop :=
  Relation.ReflTransGen (fun prev next => next ∈ g.controlSuccessors prev) g.start id

/-- `b` follows `a` in control flow. -/
def Follows (g : Graph) (a b : NodeId) : Prop :=
  Relation.TransGen (fun prev next => next ∈ g.controlSuccessors prev) a b

/-! ## Control predecessors -/

/-- A fixed node has what its first slot holds as its control predecessor. -/
theorem controlPredecessor_eq_some_iff :
    g.controlPredecessor id = some prev ↔
      ∃ node, g.node? id = some node ∧ node.kind.isFixed = true ∧ node.input 0 = some prev := by
  rw [controlPredecessor, Option.bind_eq_some_iff]
  refine exists_congr fun node => and_congr_right fun _ => ?_
  rw [Node.controlInput, Option.ite_none_right_eq_some]

/-- A node with a control predecessor holds it in its first slot, which is there for control. -/
theorem Balanced.exists_control (b : g.Balanced) (hnode : g.node? id = some node)
    (halive : node.isAlive = true) (hprev : g.controlPredecessor id = some prev) :
    node.kind.isFixed = true ∧ node.kind.layout[0]? = some .control ∧ node.input 0 = some prev ∧
      g.isAlive prev = true := by
  obtain ⟨found, hfound, hfixed, hinput⟩ := controlPredecessor_eq_some_iff.mp hprev
  cases hnode.symm.trans hfound
  obtain ⟨info, hinfo, hserves⟩ := b.serves_of_input hnode halive hinput
  have hstart : node.kind ≠ .start := by
    intro hkind
    have hnone : node.slotInfo 0 = none := by
      unfold Node.slotInfo
      rw [hkind]
      exact ite_self _
    rw [hnone] at hinfo
    cases hinfo
  refine ⟨hfixed, ?_, hinput, (serves_iff.mp hserves).1⟩
  rw [← List.head?_eq_getElem?]
  exact NodeKind.head_layout_of_isFixed hfixed hstart

/-- The control successors of a node are the attached nodes of which it is the predecessor. -/
theorem Balanced.mem_controlSuccessors_iff (b : g.Balanced) :
    id ∈ g.controlSuccessors prev ↔
      g.isAlive id = true ∧ g.controlPredecessor id = some prev := by
  -- the two queries look at the same slot, one from either end of the edge
  have hfilter : ((g.node? id).any fun node => node.kind.isFixed && node.input 0 = some prev) =
      true ↔ g.controlPredecessor id = some prev := by
    rw [controlPredecessor_eq_some_iff, Option.any_eq_true]
    simp only [Bool.and_eq_true, decide_eq_true_eq]
  unfold controlSuccessors
  rw [List.mem_filter, hfilter, mem_users_iff, b.mem_usages_iff, isAlive_iff_exists]
  refine and_congr_left fun hprev => ⟨fun ⟨node, hnode, halive, _⟩ => ⟨node, hnode, halive⟩, ?_⟩
  rintro ⟨node, hnode, halive⟩
  obtain ⟨-, -, hinput, -⟩ := b.exists_control hnode halive hprev
  exact ⟨node, hnode, halive, mem_slots_iff.mpr ⟨0, hinput⟩⟩

/-- Nothing comes before the start node. -/
theorem Balanced.controlPredecessor_start (b : g.Balanced)
    (halive : g.isAlive g.start = true) :
    g.controlPredecessor g.start = none := by
  obtain ⟨node, hnode, hnodeAlive⟩ := isAlive_iff_exists.mp halive
  obtain ⟨found, hfound, hkind⟩ := b.start
  cases hnode.symm.trans hfound
  cases hprev : g.controlPredecessor g.start with
  | none => rfl
  | some prev =>
      obtain ⟨-, hlayout, -, -⟩ := b.exists_control hnode hnodeAlive hprev
      rw [hkind] at hlayout
      cases hlayout

/-- **A control chain is determined by its last node.** -/
theorem ControlChain.unique (wf : g.WellFormed) {ids ids' : List NodeId}
    (h : g.ControlChain ids id) (h' : g.ControlChain ids' id) (halive : g.isAlive id = true) :
    ids = ids' := by
  induction h generalizing ids' with
  | start =>
      cases h' with
      | start => rfl
      | next _ hprev =>
          rw [wf.controlPredecessor_start halive] at hprev
          cases hprev
  | next chain hprev ih =>
      cases h' with
      | start =>
          rw [wf.controlPredecessor_start halive] at hprev
          cases hprev
      | next chain' hprev' =>
          obtain ⟨node, hnode, hnodeAlive⟩ := isAlive_iff_exists.mp halive
          obtain ⟨-, -, -, hprevAlive⟩ := wf.exists_control hnode hnodeAlive hprev
          cases hprev.symm.trans hprev'
          rw [ih chain' hprevAlive]

/-- On the way to the last node of a chain there are the chains of the nodes before it. -/
theorem ControlChain.exists_isPrefix {ids : List NodeId} (h : g.ControlChain ids id) {x : NodeId}
    (hx : x ∈ ids) : ∃ before, before <+: ids ∧ g.ControlChain before x := by
  induction h with
  | start =>
      rw [List.mem_singleton.mp hx]
      exact ⟨_, List.prefix_rfl, .start⟩
  | next chain hprev ih =>
      rcases List.mem_append.mp hx with hx | hx
      · obtain ⟨before, hprefix, hbefore⟩ := ih hx
        exact ⟨before, hprefix.trans (List.prefix_append _ _), hbefore⟩
      · rw [List.mem_singleton.mp hx]
        exact ⟨_, List.prefix_rfl, .next chain hprev⟩

/-- No node occurs twice in a control chain. -/
theorem ControlChain.nodup (wf : g.WellFormed) {ids : List NodeId} (h : g.ControlChain ids id)
    (halive : g.isAlive id = true) : ids.Nodup := by
  induction h with
  | start => exact List.pairwise_singleton _ _
  | next chain hprev ih =>
      obtain ⟨node, hnode, hnodeAlive⟩ := isAlive_iff_exists.mp halive
      obtain ⟨-, -, -, hprevAlive⟩ := wf.exists_control hnode hnodeAlive hprev
      refine List.nodup_append.mpr ⟨ih hprevAlive, List.pairwise_singleton _ _, ?_⟩
      rintro x hx other hother rfl
      -- the chain of `x` would be a proper prefix of itself
      obtain ⟨before, hprefix, hbefore⟩ := chain.exists_isPrefix hx
      rw [List.mem_singleton.mp hother] at hbefore
      have hlength := congrArg List.length (hbefore.unique wf (.next chain hprev) halive)
      have hle := hprefix.length_le
      rw [List.length_append, List.length_singleton] at hlength
      omega

end Graph

end SeaOfNodes
