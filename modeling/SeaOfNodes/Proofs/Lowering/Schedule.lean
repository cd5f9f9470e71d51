import Mathlib.Data.List.Perm.Basic
import SeaOfNodes.Lowering.Traversal
import SeaOfNodes.Proofs.Graph.Lookup

/-!
# Schedules

A schedule lists every lowerable node of a graph once.  That is all that lowering needs to know
about the order in which it visits the nodes, and both traversals make schedules
(**`Traversal.schedules_order`**).

In control-flow order this is a fact about the search.  It finishes every node that it enters, and
it enters none twice: what it has seen is what it has finished and what lies on its path
(`Graph.Searching`).
-/

namespace SeaOfNodes

namespace Graph

variable {g : Graph} {id : NodeId}

theorem isLowerable_iff :
    g.isLowerable id = true ↔
      ∃ node, g.node? id = some node ∧ node.isAlive = true ∧ node.kind.isLowerable = true := by
  unfold isLowerable
  rw [Option.any_eq_true]
  simp only [Bool.and_eq_true]

theorem isAlive_of_isLowerable (h : g.isLowerable id = true) : g.isAlive id = true := by
  obtain ⟨node, hnode, halive, -⟩ := isLowerable_iff.mp h
  unfold isAlive
  rw [hnode]
  exact halive

/-- A list of every lowerable node. -/
structure Schedules (g : Graph) (ids : List NodeId) : Prop where
  /-- No node is listed twice. -/
  nodup : ids.Nodup
  /-- The lowerable nodes are listed, and no others. -/
  mem_iff : ∀ {id}, id ∈ ids ↔ g.isLowerable id = true

theorem Schedules.notMem_iff {ids : List NodeId} (h : g.Schedules ids) :
    id ∉ ids ↔ g.isLowerable id = false := by
  rw [h.mem_iff, Bool.not_eq_true]

/-- Any two schedules list the same nodes. -/
theorem Schedules.perm {ids other : List NodeId} (h : g.Schedules ids)
    (hother : g.Schedules other) : ids.Perm other :=
  (List.perm_ext_iff_of_nodup h.nodup hother.nodup).mpr fun _ => h.mem_iff.trans hother.mem_iff.symm

/-! ## Allocation order -/

theorem lt_size_of_isLowerable (h : g.isLowerable id = true) : id.index < g.size := by
  obtain ⟨node, hnode, -, -⟩ := isLowerable_iff.mp h
  exact lt_size_of_node? hnode

theorem nodup_ids (g : Graph) : g.ids.Nodup := by
  refine List.Pairwise.map ArenaId.mk ?_ List.nodup_range
  intro i j hne he
  exact hne (congrArg ArenaId.index he)

/-- The lowerable nodes in allocation order are a schedule. -/
theorem schedules_lowerables (g : Graph) : g.Schedules g.lowerables where
  nodup := g.nodup_ids.filter _
  mem_iff {id} := by
    unfold lowerables
    rw [List.mem_filter, and_iff_right_iff_imp]
    exact fun h => (g.nodes.mem_ids id).mpr (lt_size_of_isLowerable h)

/-! ## Control-flow order -/

/-- What holds while the search runs: the nodes that it has seen are those that it has finished and
those on its path, each once. -/
structure Searching (seen : BitSet) (finished : List NodeId) (path : List Frame) : Prop where
  /-- No node is entered twice. -/
  nodup : (finished ++ path.map Prod.fst).Nodup
  /-- Entered nodes are seen, and no others. -/
  mem_iff : ∀ id : NodeId, id ∈ finished ++ path.map Prod.fst ↔ seen.contains id.index = true

namespace Searching

variable {seen : BitSet} {finished : List NodeId} {path : List Frame} {next : NodeId}

/-- The last node of the path is finished. -/
theorem finish (h : Searching seen finished ((id, []) :: path)) :
    Searching seen (id :: finished) path := by
  have hperm : (id :: finished ++ path.map Prod.fst).Perm
      (finished ++ ((id, []) :: path : List Frame).map Prod.fst) := List.perm_middle.symm
  exact ⟨hperm.nodup_iff.mpr h.nodup, fun other => hperm.mem_iff.trans (h.mem_iff other)⟩

/-- A node that was not seen is entered. -/
theorem enter {rest successors : List NodeId}
    (h : Searching seen finished ((id, next :: rest) :: path))
    (hnew : seen.contains next.index = false) :
    Searching (seen.insert next.index) finished ((next, successors) :: (id, rest) :: path) := by
  have hperm :
      (finished ++ ((next, successors) :: (id, rest) :: path : List Frame).map Prod.fst).Perm
      (next :: (finished ++ ((id, next :: rest) :: path : List Frame).map Prod.fst)) :=
    List.perm_middle
  refine ⟨hperm.nodup_iff.mpr (List.nodup_cons.mpr ⟨fun hmem => ?_, h.nodup⟩), fun other => ?_⟩
  · rw [(h.mem_iff next).mp hmem] at hnew
    cases hnew
  · rw [hperm.mem_iff, List.mem_cons, h.mem_iff, BitSet.contains_insert, Bool.or_eq_true,
      decide_eq_true_iff, ArenaId.index_inj, eq_comm]

/-- A node that was seen is passed over. -/
theorem skip {rest : List NodeId} (h : Searching seen finished ((id, next :: rest) :: path)) :
    Searching seen finished ((id, rest) :: path) := ⟨h.nodup, h.mem_iff⟩

/-- **The search finishes all that it sees.** -/
theorem search (h : Searching seen finished path) :
    Searching (g.search seen finished path).2 (g.search seen finished path).1 [] := by
  fun_induction g.search seen finished path with
  | case1 seen finished => exact h
  | case2 seen finished id path ih => exact ih h.finish
  | case3 seen finished id next rest path hnext ih => exact ih (h.enter hnext.2)
  | case4 seen finished id next rest path hnext ih => exact ih h.skip

end Searching

theorem searching_searchFromStart (g : Graph) :
    Searching g.searchFromStart.2 g.searchFromStart.1 [] := by
  refine Searching.search ⟨List.pairwise_singleton _ _, ?_⟩
  intro id
  rw [BitSet.contains_insert, BitSet.contains_withCapacity, Bool.or_false, decide_eq_true_iff,
    ArenaId.index_inj, eq_comm]
  exact List.mem_singleton

/-- The lowerable nodes in control-flow order are a schedule. -/
theorem schedules_controlFlowOrder (g : Graph) : g.Schedules g.controlFlowOrder := by
  have hsearch := g.searching_searchFromStart
  have hcreation := g.schedules_lowerables
  have hmem : ∀ id, id ∈ g.searchFromStart.1 ↔ g.searchFromStart.2.contains id.index = true :=
    fun id => List.append_nil g.searchFromStart.1 ▸ hsearch.mem_iff id
  have hnodup : g.searchFromStart.1.Nodup := List.append_nil g.searchFromStart.1 ▸ hsearch.nodup
  refine ⟨?_, fun {id} => ?_⟩
  · -- the search reached the ones, and did not reach the others
    refine List.nodup_append.mpr ⟨hnodup.filter _, hcreation.nodup.filter _, ?_⟩
    rintro id hid other hother rfl
    have hseen := (hmem id).mp (List.mem_filter.mp hid).1
    have hunseen : (!g.searchFromStart.2.contains id.index) = true := (List.mem_filter.mp hother).2
    rw [hseen] at hunseen
    cases hunseen
  · unfold controlFlowOrder
    rw [List.mem_append, List.mem_filter, List.mem_filter, hcreation.mem_iff, hmem]
    cases g.searchFromStart.2.contains id.index <;> simp

end Graph

/-- **Both traversals visit every lowerable node once.** -/
theorem Traversal.schedules_order (traversal : Traversal) (g : Graph) :
    g.Schedules (traversal.order g) := by
  cases traversal with
  | controlFlow => exact g.schedules_controlFlowOrder
  | creation => exact g.schedules_lowerables

end SeaOfNodes
