import SeaOfNodes.Proofs.Lowering.Growth
import SeaOfNodes.Proofs.Lowering.Schedule
import SeaOfNodes.Proofs.Lowering.Splice

/-!
# Taking back an expansion

When a tool fails, or its replacement is not accepted, what it created is deleted, the newest node
first.  The deletion is one pass, it skips a node that is still in use, and it edits usage lists by
`swapRemove`, which moves entries.  Nevertheless nothing is skipped and nothing moves:

* a node is used by nodes only that were created after it, and they are gone when its turn comes;
* what the newest node appended to a list stands at its end, so that removing it moves nothing.

Neither holds of the pass as a whole, and both hold of its last step, which is about the oldest of
the nodes created.  So the induction is on the list of nodes that were inserted, and its statement
is `Graph.Restores g k`: `k` is `g` up to nodes that are deleted.  **`Restores.discard`** is the
step, `restores_discardSince` the run, and **`Reachable.lowerNode_rolls_back`** the case of a tool.
-/

namespace SeaOfNodes

namespace Graph

variable {admits : Node → Prop} {g h k : Graph} {node : Node} {id x : NodeId}

/-- **The graph `k` is `g` again**, up to nodes that were deleted. -/
structure Restores (g k : Graph) : Prop where
  /-- The old nodes are as they were. -/
  old : ∀ {x : NodeId}, x.index < g.size → k.node? x = g.node? x
  /-- All usage lists are as they were, entry by entry. -/
  usages : ∀ x, k.usages x = g.usages x
  /-- The new nodes are deleted, hold nothing and are in no use. -/
  new : ∀ {x node}, g.size ≤ x.index → k.node? x = some node →
    node.state = .deleted ∧ node.slots = [] ∧ k.usages x = []

/-! ## One node -/

theorem restores_refl (g : Graph) : Restores g g where
  old _ := rfl
  usages _ := rfl
  new hx hnode := absurd (lt_size_of_node? hnode) (Nat.not_lt.mpr hx)

/-- Deleting an attached node that is the last in every list takes it off, and moves nothing. -/
theorem usages_bury {users : List NodeId} (hnode : k.node? id = some node)
    (halive : node.isAlive = true) (hfresh : id ∉ users)
    (husages : k.usages x = users ++ List.replicate (node.slots.count (some x)) id) :
    (k.bury id .deleted).usages x = users := by
  have hid : k.isAlive id = true := isAlive_iff_exists.mpr ⟨node, hnode, halive⟩
  rw [bury, usages_modifyNode, if_pos hid]
  exact usages_severInputs x hnode hfresh husages

/-- **The step.**  Where the graph after an insertion is restored, discarding the inserted node
restores the graph before. -/
theorem Restores.discard (fresh : g.Fresh) (hfit : g.SlotsFit node)
    (restores : Restores (g.insert node) k) : Restores g (k.discard g.nextId) := by
  have hnode : k.node? g.nextId = some (node.entered g.nextBci) := by
    rw [restores.old (by rw [size_insert]; exact Nat.lt_succ_self _), node?_insert, if_pos rfl]
    rfl
  have husages : ∀ d, k.usages d =
      g.usages d ++ List.replicate (node.slots.count (some d)) g.nextId :=
    fun d => (restores.usages d).trans (usages_insert g node d)
  -- it does not hold itself, so that nobody is left who does
  have hunused : k.usages g.nextId = [] := by
    have hself : node.slots.count (some g.nextId) = 0 := hfit.count_eq_zero (Nat.le_refl _)
    rw [husages, (fresh g.nextId (Nat.le_refl _)).1, hself]
    rfl
  have hdiscard : k.discard g.nextId = k.bury g.nextId .deleted := by
    have halive : k.isAlive g.nextId = true := isAlive_iff_exists.mpr ⟨_, hnode, rfl⟩
    rw [Graph.discard, halive, hunused]
    rfl
  have hlists : ∀ d, (k.bury g.nextId .deleted).usages d = g.usages d := fun d =>
    usages_bury hnode rfl ((fresh g.nextId (Nat.le_refl _)).2 d) (husages d)
  rw [hdiscard]
  refine ⟨fun {x} hx => ?_, hlists, fun {x found} hx hfound => ?_⟩
  · have hne : g.nextId ≠ x := by
      rintro rfl
      exact Nat.lt_irrefl _ hx
    rw [node?_bury, if_neg hne, restores.old (by rw [size_insert]; omega), node?_insert,
      if_neg hne]
  · have hempty : (k.bury g.nextId .deleted).usages x = [] := by rw [hlists, (fresh x hx).1]
    rw [node?_bury] at hfound
    split at hfound
    · next he =>
      rw [← he, hnode] at hfound
      cases hfound
      exact ⟨rfl, rfl, hempty⟩
    · next hne =>
      have hlater : (g.insert node).size ≤ x.index := by
        have hindex : g.size ≠ x.index := fun he => hne (ArenaId.ext_index he)
        rw [size_insert]
        omega
      obtain ⟨hstate, hslots, -⟩ := restores.new hlater hfound
      exact ⟨hstate, hslots, hempty⟩

/-! ## All nodes since a mark -/

/-- The oldest of the nodes since a mark is discarded last. -/
theorem discardSince_of_lt {mark : Nat} (hmark : mark < h.size) :
    h.discardSince mark = (h.discardSince (mark + 1)).discard ⟨mark⟩ := by
  have hids : h.ids.drop mark = ⟨mark⟩ :: h.ids.drop (mark + 1) := by
    have hlength : mark < h.ids.length := by simpa [ids, Arena.ids, size] using hmark
    rw [List.drop_eq_getElem_cons hlength]
    simp [ids, Arena.ids]
  rw [discardSince, hids, List.reverse_cons, List.foldl_append]
  rfl

theorem discardSince_size (g : Graph) : g.discardSince g.size = g := by
  have hids : g.ids.drop g.size = [] := by simp [ids, Arena.ids, size]
  rw [discardSince, hids]
  rfl

/-- **The run.**  What was inserted since a graph had its size is taken back. -/
theorem restores_discardSince {nodes : List Node} (fresh : g.Fresh) (receives : g.Receives nodes) :
    Restores g ((g.insertAll nodes).discardSince g.size) := by
  induction nodes generalizing g with
  | nil =>
      rw [insertAll, discardSince_size]
      exact restores_refl g
  | cons node nodes ih =>
      obtain ⟨hfit, hrest⟩ := receives
      have hmark : g.size < ((g.insert node).insertAll nodes).size := by
        rw [size_insertAll, size_insert]
        omega
      have hlater := ih (fresh.insert hfit) hrest
      rw [size_insert] at hlater
      rw [insertAll, discardSince_of_lt hmark]
      exact hlater.discard fresh hfit

theorem sameFrame_discardSince (h : Graph) (mark : Nat) : SameFrame h (h.discardSince mark) := by
  rw [discardSince]
  refine SameFrame.foldl (fun k id => ?_) _ h
  rw [discard]
  split
  · exact k.sameFrame_bury id .deleted
  · exact .refl k

end Graph

/-! ## Tools that decline -/

namespace Graph

variable {σ : Type} {admits : Node → Prop} {tool : LoweringTool σ} {g h : Graph} {id : NodeId}
  {memory memory' : σ} {v : Violation}

/-- Called for `id` in `g`, the tool leaves the graph `h`, and then it comes to nothing: the tool
fails, or its replacement is not accepted. -/
inductive Declines (tool : LoweringTool σ) (id : NodeId) (g : Graph) (memory : σ) (v : Violation)
    (h : Graph) (memory' : σ) : Prop where
  /-- The tool fails. -/
  | failed (run : (tool id).run (g, memory) = .error (.violation v) (h, memory'))
  /-- The replacement is not accepted. -/
  | rejected {r : Replacement} (run : (tool id).run (g, memory) = .ok r (h, memory'))
      (check : h.checkReplacement id (g.checkpoint? id) r = .error v)

theorem requireLowerable_of_isLowerable (hid : g.isLowerable id = true) :
    g.requireLowerable id = .ok (g.checkpoint? id) := by
  obtain ⟨node, hnode, halive, hlowerable⟩ := isLowerable_iff.mp hid
  rw [requireLowerable_eq_ok hnode halive hlowerable, checkpoint?_of_node? hnode]

theorem isLowerable_of_requireLowerable {killed : Option Checkpoint}
    (h : g.requireLowerable id = .ok killed) : g.isLowerable id = true := by
  rw [requireLowerable, bind_eq_ok_iff] at h
  obtain ⟨node, hnode, h⟩ := h
  obtain ⟨hnode, halive⟩ := requireAlive_eq_ok_iff.mp hnode
  split at h
  · next hlowerable => exact isLowerable_iff.mpr ⟨node, hnode, halive, hlowerable⟩
  · cases h

/-- A node that is not lowerable is refused, and nothing happens. -/
theorem run_lowerNode_of_not_isLowerable (tool : LoweringTool σ)
    (hid : ¬ g.isLowerable id = true) (memory : σ) :
    ∃ v, (lowerNode tool id).run (g, memory) = .error (.violation v) (g, memory) := by
  rw [lowerNode, ToolM.run_inTool_ask_bind]
  cases hrequire : g.requireLowerable id with
  | error v => exact ⟨v, rfl⟩
  | ok killed => exact absurd (isLowerable_of_requireLowerable hrequire) hid

/-- Lowering with a tool that comes to nothing fails as the tool does, and takes back what was
allocated. -/
theorem run_lowerNode_of_declines (hid : g.isLowerable id = true)
    (declines : Declines tool id g memory v h memory') :
    (lowerNode tool id).run (g, memory) =
      .error (.violation v) (h.discardSince g.size, memory') := by
  rw [run_lowerNode_eq tool (requireLowerable_of_isLowerable hid)]
  rcases declines with ⟨run⟩ | ⟨run, check⟩
  · rw [run]
  · rw [run]
    dsimp only
    rw [check]

/-- **A failed expansion is taken back.**  In a graph that a run leads to, let an attached access be
lowered by a tool that creates nodes, any number of them and on top of each other, and then fails or
answers a replacement that is not accepted.  The lowering fails, and afterwards

* every node that was there before is as it was, and so is its usage list, in its order;
* every node that was created is deleted, holds nothing and is in no use;
* nothing else has changed. -/
theorem Reachable.lowerNode_rolls_back (reachable : g.Reachable) (hid : g.isLowerable id = true)
    (declines : Declines tool id g memory v h memory') (grown : Grows admits g h) :
    ∃ g', (lowerNode tool id).run (g, memory) = .error (.violation v) (g', memory') ∧
      Restores g g' ∧ g'.size = h.size ∧ g'.start = g.start ∧ g'.locations = g.locations ∧
      g'.nextBci = g.nextBci := by
  refine ⟨_, run_lowerNode_of_declines hid declines, ?_⟩
  have frame := h.sameFrame_discardSince g.size
  rw [frame.start, frame.locations, frame.nextBci]
  obtain ⟨nodes, receives, rfl⟩ := grown.exists_nodes
  refine ⟨restores_discardSince reachable.wellFormed.fresh receives, frame.size, ?_⟩
  exact ⟨g.start_insertAll nodes, g.locations_insertAll nodes, g.nextBci_insertAll nodes⟩

/-- A tool that forgets about the value: it builds an address that nobody needs and a fence behind
the node itself, and has control continue from the fence. -/
def fenceOnly : LoweringTool Unit := .ofEdit fun id => do
  let address ← offsetAddress ⟨1⟩ ⟨1⟩
  let fence ← add (.withInputs (.memoryBarrier .full) .void [some id])
  return { control := some fence, nodes := [address, fence] }

/-- The load is not lowered by it: the return uses its value.  The two nodes are taken back. -/
theorem lowerNode_rolls_back_fenceOnly :
    ∃ v g', (lowerNode fenceOnly ⟨6⟩).run (storeThenLoad, ()) = .error (.violation v) (g', ()) ∧
      Restores storeThenLoad g' ∧ g'.size = 10 := by
  let fence : Node := .withInputs (.memoryBarrier .full) .void [some ⟨6⟩]
  let expanded : Graph := (add fence).after ((offsetAddress ⟨1⟩ ⟨1⟩).after storeThenLoad)
  let r : Replacement := { control := some ⟨9⟩, nodes := [⟨8⟩, ⟨9⟩] }
  have grown : Grows (fun _ => True) storeThenLoad expanded :=
    .create (.create .refl (.offsetAddress ⟨1⟩ ⟨1⟩)) (.add trivial)
  have hrun : (fenceOnly ⟨6⟩).run (storeThenLoad, ()) = .ok r (expanded, ()) := rfl
  have hrefused :
      (expanded.checkReplacement ⟨6⟩ (storeThenLoad.checkpoint? ⟨6⟩) r).isOk = false := by
    decide +kernel
  rcases hcheck : expanded.checkReplacement ⟨6⟩ (storeThenLoad.checkpoint? ⟨6⟩) r with v | accepted
  · obtain ⟨g', hlower, restores, hsize, -⟩ :=
      Reachable.lowerNode_rolls_back reachable_storeThenLoad (by decide +kernel)
        (.rejected hrun hcheck) grown
    exact ⟨v, g', hlower, restores, hsize.trans (by decide +kernel)⟩
  · rw [hcheck] at hrefused
    cases hrefused

end Graph

end SeaOfNodes
