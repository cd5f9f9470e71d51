import SeaOfNodes.Proofs.Graph.Verify
import SeaOfNodes.Proofs.Lowering.Along

/-!
# Counting nodes before and after lowering

The statistics of a pass speak of lists of kinds.  This module says what they mean for the graphs
before and after it: how many nodes of a kind there were, how many there are among the new nodes,
and how many nodes are attached.
-/

namespace SeaOfNodes

namespace Graph

variable {g g' : Graph} {config : LoweringConfig} {ids : List NodeId} {p : Placement}

/-! ## Attached nodes -/

/-- Attached nodes are counted by their ids. -/
theorem countP_liveNodes (g : Graph) (P : NodeId × Node → Bool) :
    g.liveNodes.countP P =
      g.ids.countP fun id => (g.node? id).any fun node => P (id, node) && node.isAlive := by
  unfold liveNodes
  rw [List.countP_filter, entries, Arena.entries, List.countP_filterMap]
  refine congrArg (List.countP · _) ?_
  funext id
  rw [← node?]
  cases g.node? id <;> rfl

theorem liveCount_eq (g : Graph) : g.liveCount = g.ids.countP g.isAlive := by
  unfold liveCount
  rw [← List.countP_true, countP_liveNodes]
  rfl

/-- The kinds of attached nodes, as a count by their ids. -/
theorem countP_kinds {ids : List NodeId} (h : ∀ id ∈ ids, g.isAlive id = true)
    (P : NodeKind → Bool) :
    (g.kinds ids).countP P =
      ids.countP fun id => (g.node? id).any fun node => P node.kind && node.isAlive := by
  unfold kinds
  rw [List.countP_filterMap]
  apply List.countP_congr
  intro id hid
  obtain ⟨node, hnode, halive⟩ := isAlive_iff_exists.mp (h id hid)
  simp [hnode, halive]

/-- Attached nodes are lowerable or not. -/
theorem liveCount_split (g : Graph) :
    g.liveCount =
      (g.ids.countP fun x => g.isAlive x && !g.isLowerable x) + g.ids.countP g.isLowerable := by
  rw [liveCount_eq, List.countP_eq_length_filter, List.length_eq_countP_add_countP g.isLowerable,
    List.countP_filter, List.countP_filter, Nat.add_comm]
  refine congrArg₂ (· + ·) (List.countP_congr fun x _ => ?_) (List.countP_congr fun x _ => ?_)
  · simp [and_comm]
  · rw [Bool.and_eq_true, and_iff_left_iff_imp]
    exact isAlive_of_isLowerable

/-- **What a schedule lists, as a count of attached nodes.** -/
theorem Schedules.countP_kinds (h : g.Schedules ids) {P : NodeKind → Bool}
    (hlowerable : ∀ kind, P kind = true → kind.isLowerable = true) :
    (g.kinds ids).countP P = g.liveNodes.countP fun entry => P entry.2.kind := by
  rw [Graph.countP_kinds fun id hid => isAlive_of_isLowerable (h.mem_iff.mp hid),
    (h.perm g.schedules_lowerables).countP_eq, lowerables, List.countP_filter, countP_liveNodes]
  refine congrArg (List.countP · _) ?_
  funext id
  unfold isLowerable
  cases g.node? id with
  | none => rfl
  | some node =>
      cases hP : P node.kind with
      | false => simp [hP]
      | true => simp [hP, hlowerable _ hP]

/-- A schedule is as long as there are lowerable nodes. -/
theorem Schedules.length_eq (h : g.Schedules ids) : ids.length = g.ids.countP g.isLowerable := by
  rw [(h.perm g.schedules_lowerables).length_eq, lowerables, List.countP_eq_length_filter]

/-! ## After lowering -/

namespace Lowered

/-- The ids afterwards are the old ones and the new ones. -/
theorem ids_eq (h : Lowered config g ids p g') :
    g'.ids = g.ids ++ ids.flatMap p.block := by
  have hsize : g'.nodes.size = g.nodes.size + (ids.flatMap p.block).length := h.size
  rw [← h.allocated, Graph.ids, Arena.ids, hsize, List.range_add, List.map_append, List.map_map]
  rfl

/-- A node that was there stays attached unless it was lowered. -/
theorem isAlive_old (h : Lowered config g ids p g') (hschedule : g.Schedules ids) {x : NodeId}
    (hx : x.index < g.size) : g'.isAlive x = (g.isAlive x && !g.isLowerable x) := by
  by_cases hmem : x ∈ ids
  · unfold isAlive
    rw [h.lowered x hmem, hschedule.mem_iff.mp hmem, Bool.not_true, Bool.and_false]
    cases g.node? x <;> rfl
  · rw [hschedule.notMem_iff.mp hmem, Bool.not_false, Bool.and_true]
    unfold isAlive
    rw [h.old x hmem hx]
    cases g.node? x with
    | none => rfl
    | some node => exact Node.isAlive_redirect _ _

/-- The new nodes are attached. -/
theorem isAlive_new (h : Lowered config g ids p g') {x : NodeId} (hx : x ∈ ids.flatMap p.block) :
    g'.isAlive x = true := by
  obtain ⟨id, hid, hmem⟩ := List.mem_flatMap.mp hx
  obtain ⟨j, hj, rfl⟩ := List.mem_map.mp hmem
  obtain ⟨planned, -, hnode⟩ := h.exists_planned hid (List.mem_range.mp hj)
  exact isAlive_iff_exists.mpr ⟨_, hnode, rfl⟩

/-- **What was created, as a count of attached nodes.** -/
theorem countP_created (h : Lowered config g ids p g') (P : NodeKind → Bool) :
    ((g.kinds ids).flatMap (config.expansionKinds g.locations)).countP P =
      g'.liveNodes.countP fun entry => decide (g.size ≤ entry.1.index) && P entry.2.kind := by
  -- none of the old ids is past the size of the graph before
  have hold : (g.ids.countP fun id => (g'.node? id).any fun node =>
      (decide (g.size ≤ id.index) && P node.kind) && node.isAlive) = 0 := by
    apply List.countP_eq_zero.mpr
    intro id hid
    have hlt : ¬ g.size ≤ id.index := Nat.not_le.mpr ((g.nodes.mem_ids id).mp hid)
    simp [hlt]
  rw [← h.kinds_blocks fun _ hid => hid, countP_kinds fun x => h.isAlive_new, countP_liveNodes,
    h.ids_eq, List.countP_append, hold, Nat.zero_add]
  apply List.countP_congr
  intro x hx
  have hle := (h.mem_blocks_iff.mp hx).1
  simp [hle]

/-- **How many nodes are attached afterwards.** -/
theorem liveCount_add (h : Lowered config g ids p g') (hschedule : g.Schedules ids) :
    g'.liveCount + ids.length = g.liveCount + (ids.flatMap p.block).length := by
  have hold : g.ids.countP g'.isAlive = g.ids.countP fun x => g.isAlive x && !g.isLowerable x :=
    List.countP_congr fun x hx => by
      rw [h.isAlive_old hschedule ((g.nodes.mem_ids x).mp hx)]
  have hnew : (ids.flatMap p.block).countP g'.isAlive = (ids.flatMap p.block).length :=
    List.countP_eq_length.mpr fun x => h.isAlive_new
  rw [g'.liveCount_eq, h.ids_eq, List.countP_append, hold, hnew, hschedule.length_eq,
    g.liveCount_split]
  omega

end Lowered

end Graph

end SeaOfNodes
