import Mathlib.Data.List.Nodup
import SeaOfNodes.Proofs.Graph.ControlChain
import SeaOfNodes.Proofs.Graph.Invariance

/-!
# The control that is reached is a tree

Control successors are read off the usage list of a node, and its control predecessor off its first
slot.  The two queries are inverse to each other on attached nodes
(`Balanced.mem_controlSuccessors_iff`), and a successor is listed once, in however many slots it
holds the node.

So there is one way back from a node, and one way to it from the start node
(`ControlPath.unique`): what control reaches is a tree (**`Reaches.control_tree`**).

### What is load-bearing

Nodes may be rewired into a circle of control.  The circle is not reached, since the way back from a
node on it stays on it, while the start node has no predecessor.  Nor does control leave a reached
path and come back to it: a node that was come back to would end two paths of different length.
-/

namespace SeaOfNodes

namespace Graph

variable {admits : Node → Prop} {g : Graph} {a id prev : NodeId} {ids ids' : List NodeId}

/-- `g.ControlPath ids id`: the nodes `ids`, of which `id` is the last, lead from the start node
from each to one of its control successors. -/
inductive ControlPath (g : Graph) : List NodeId → NodeId → Prop where
  /-- The start node alone. -/
  | start : ControlPath g [g.start] g.start
  /-- On to a successor. -/
  | next {ids : List NodeId} {prev id : NodeId} (path : ControlPath g ids prev)
      (hnext : id ∈ g.controlSuccessors prev) : ControlPath g (ids ++ [id]) id

/-- A successor is listed once, in however many slots it holds the node. -/
theorem nodup_controlSuccessors (g : Graph) (id : NodeId) : (g.controlSuccessors id).Nodup :=
  (nodup_eraseDups (g.usages id)).filter _

/-- The start node follows nothing. -/
theorem Balanced.start_notMem_controlSuccessors (b : g.Balanced) :
    g.start ∉ g.controlSuccessors prev := by
  intro hmem
  obtain ⟨halive, hprev⟩ := b.mem_controlSuccessors_iff.mp hmem
  rw [b.controlPredecessor_start halive] at hprev
  cases hprev

/-- A node follows one node only. -/
theorem Balanced.eq_of_mem_controlSuccessors (b : g.Balanced)
    (ha : id ∈ g.controlSuccessors a) (hprev : id ∈ g.controlSuccessors prev) : a = prev :=
  Option.some.inj <|
    (b.mem_controlSuccessors_iff.mp ha).2.symm.trans (b.mem_controlSuccessors_iff.mp hprev).2

namespace ControlPath

/-- **A path is determined by its last node.** -/
theorem unique (b : g.Balanced) (h : g.ControlPath ids id) (h' : g.ControlPath ids' id) :
    ids = ids' := by
  induction h generalizing ids' with
  | start =>
      cases h' with
      | start => rfl
      | next _ hnext => exact absurd hnext b.start_notMem_controlSuccessors
  | next _ hnext ih =>
      cases h' with
      | start => exact absurd hnext b.start_notMem_controlSuccessors
      | next path' hnext' =>
          cases b.eq_of_mem_controlSuccessors hnext hnext'
          rw [ih path']

/-- A path leads to what control reaches. -/
theorem followsStart (h : g.ControlPath ids id) : g.FollowsStart id := by
  induction h with
  | start => exact .refl
  | next _ hnext ih => exact ih.tail hnext

/-- A path goes on to what follows its last node. -/
theorem exists_append (h : g.ControlPath ids a) (hfollows : g.Follows a id) :
    ∃ more, more ≠ [] ∧ g.ControlPath (ids ++ more) id := by
  induction hfollows with
  | single hnext => exact ⟨_, List.cons_ne_nil _ [], h.next hnext⟩
  | @tail prev id _ hnext ih =>
      obtain ⟨more, -, path⟩ := ih
      refine ⟨more ++ [id], List.append_ne_nil_of_right_ne_nil more (List.cons_ne_nil _ []), ?_⟩
      rw [← List.append_assoc]
      exact path.next hnext

end ControlPath

/-- A path leads to every node that control reaches. -/
theorem FollowsStart.exists_path (h : g.FollowsStart id) : ∃ ids, g.ControlPath ids id := by
  induction h with
  | refl => exact ⟨_, .start⟩
  | tail _ hnext ih =>
      obtain ⟨ids, path⟩ := ih
      exact ⟨_, path.next hnext⟩

/-- What control reaches does not follow itself: the way round would make a second path. -/
theorem Balanced.not_follows_self (b : g.Balanced) (h : g.FollowsStart id) : ¬ g.Follows id id := by
  intro hcircle
  obtain ⟨ids, path⟩ := h.exists_path
  obtain ⟨more, hmore, around⟩ := path.exists_append hcircle
  have hids : ids = ids ++ more := path.unique b around
  exact hmore (List.self_eq_append_right.mp hids)

/-- **Control queries are inverse to each other, and the control that is reached is a tree.**  In
every graph that a run leads to:

* The control successors of a node are the attached nodes that have it as their control
  predecessor, and each is listed once.
* One path leads from the start node to a node that control reaches, and none to any other.
* No circle of control is reached. -/
theorem Reaches.control_tree (reached : Reaches admits new g) :
    (∀ p n, (n ∈ g.controlSuccessors p ↔
        g.isAlive n = true ∧ g.controlPredecessor n = some p) ∧
      (n ∈ g.controlSuccessors p → (g.controlSuccessors p).count n = 1)) ∧
    (∀ n, g.FollowsStart n ↔ ∃! ids, g.ControlPath ids n) ∧
    ∀ n, g.FollowsStart n → ¬ g.Follows n n := by
  have b := reached.balanced
  refine ⟨fun p n => ⟨b.mem_controlSuccessors_iff, ?_⟩, fun n => ⟨fun hn => ?_, ?_⟩,
    fun n hn => b.not_follows_self hn⟩
  · exact List.count_eq_one_of_mem (g.nodup_controlSuccessors p)
  · obtain ⟨ids, path⟩ := hn.exists_path
    exact ⟨ids, path, fun other hother => hother.unique b path⟩
  · rintro ⟨ids, path, -⟩
    exact path.followsStart

/-- The return holds the load as its control predecessor and as its result.  It is one successor of
the load, at the end of one path. -/
theorem control_tree_storeThenLoad :
    storeThenLoad.usages ⟨6⟩ = [⟨7⟩, ⟨7⟩] ∧
      (storeThenLoad.controlSuccessors ⟨6⟩).count ⟨7⟩ = 1 ∧
      ∃! ids, storeThenLoad.ControlPath ids ⟨7⟩ := by
  obtain ⟨hqueries, hpaths, -⟩ := Reaches.control_tree reachable_storeThenLoad
  have hstored : storeThenLoad.FollowsStart ⟨5⟩ :=
    .single ((hqueries ⟨0⟩ ⟨5⟩).1.mpr (by decide +kernel))
  have hloaded : storeThenLoad.FollowsStart ⟨6⟩ :=
    hstored.tail ((hqueries ⟨5⟩ ⟨6⟩).1.mpr (by decide +kernel))
  have hreturn : (⟨7⟩ : NodeId) ∈ storeThenLoad.controlSuccessors ⟨6⟩ :=
    (hqueries ⟨6⟩ ⟨7⟩).1.mpr (by decide +kernel)
  exact ⟨by decide +kernel, (hqueries ⟨6⟩ ⟨7⟩).2 hreturn, (hpaths ⟨7⟩).mp (hloaded.tail hreturn)⟩

end Graph

end SeaOfNodes
