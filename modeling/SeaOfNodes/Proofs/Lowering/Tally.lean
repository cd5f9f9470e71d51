import SeaOfNodes.Lowering.Pass
import SeaOfNodes.Proofs.Graph.After

/-!
# What a pass counts

The statistics of a pass depend on the kinds of the nodes that it lowers and of those that it
creates, and on nothing else: `LoweringStats.tally` adds two lists of kinds at once, and the
counting of the pass amounts to it (`countLowered_eq_tally`, `foldl_countCreated`).  Since a tally
counts, the order of the kinds does not matter (`tally_perm`).
-/

namespace SeaOfNodes

namespace NodeKind

/-- A read that is to be lowered. -/
def isRead : NodeKind → Bool
  | read _ => true
  | _ => false

/-- A write that is to be lowered. -/
def isWrite : NodeKind → Bool
  | write .. => true
  | _ => false

/-- A compare-and-swap that is to be lowered. -/
def isCompareAndSwap : NodeKind → Bool
  | compareAndSwap .. => true
  | _ => false

/-- A fence. -/
def isMemoryBarrier : NodeKind → Bool
  | memoryBarrier _ => true
  | _ => false

/-- A barrier of the collector. -/
def isWriteBarrier : NodeKind → Bool
  | writeBarrier _ => true
  | _ => false

end NodeKind

namespace LoweringStats

/-- Count nodes of the given kinds as lowered, and others as created. -/
def tally (stats : LoweringStats) (lowered created : List NodeKind) : LoweringStats :=
  { stats with
    reads := stats.reads + lowered.countP NodeKind.isRead
    writes := stats.writes + lowered.countP NodeKind.isWrite
    compareAndSwaps := stats.compareAndSwaps + lowered.countP NodeKind.isCompareAndSwap
    nodesCreated := stats.nodesCreated + created.length
    fences := stats.fences + created.countP NodeKind.isMemoryBarrier
    barriers := stats.barriers + created.countP NodeKind.isWriteBarrier }

theorem tally_tally (stats : LoweringStats) (lowered created lowered' created' : List NodeKind) :
    (stats.tally lowered created).tally lowered' created' =
      stats.tally (lowered ++ lowered') (created ++ created') := by
  simp only [tally, List.countP_append, List.length_append, Nat.add_assoc]

theorem countLowered_eq_tally (stats : LoweringStats) (kind : NodeKind) :
    stats.countLowered kind = stats.tally [kind] [] := by
  cases kind <;> rfl

theorem countCreated_eq_tally (stats : LoweringStats) (kind : NodeKind) :
    stats.countCreated kind = stats.tally [] [kind] := by
  cases kind <;> rfl

theorem foldl_countCreated (stats : LoweringStats) (created : List NodeKind) :
    created.foldl countCreated stats = stats.tally [] created := by
  induction created generalizing stats with
  | nil => rfl
  | cons kind created ih => rw [List.foldl_cons, ih, countCreated_eq_tally, tally_tally]; rfl

/-- The order in which nodes are counted does not matter. -/
theorem tally_perm (stats : LoweringStats) {lowered lowered' created created' : List NodeKind}
    (hlowered : lowered.Perm lowered') (hcreated : created.Perm created') :
    stats.tally lowered created = stats.tally lowered' created' := by
  simp only [tally, hlowered.countP_eq, hcreated.countP_eq, hcreated.length_eq]

/-- Every lowerable node is counted in one of three ways. -/
theorem lowered_tally (stats : LoweringStats) {lowered : List NodeKind}
    (h : ∀ kind ∈ lowered, kind.isLowerable = true) (created : List NodeKind) :
    (stats.tally lowered created).lowered = stats.lowered + lowered.length := by
  induction lowered with
  | nil => rfl
  | cons kind lowered ih =>
      have hrest := ih fun kind hkind => h kind (List.mem_cons_of_mem _ hkind)
      have hkind := h kind List.mem_cons_self
      simp only [LoweringStats.lowered, tally, List.countP_cons, List.length_cons] at hrest ⊢
      match kind, hkind with
      | .read _, _ | .write .., _ | .compareAndSwap .., _ =>
          simp only [NodeKind.isRead, NodeKind.isWrite, NodeKind.isCompareAndSwap, if_true,
            Bool.false_eq_true, if_false]
          omega

end LoweringStats

/-! ## The kinds of listed nodes -/

/-- The kinds of the listed nodes. -/
def Graph.kinds (g : Graph) (ids : List NodeId) : List NodeKind :=
  ids.filterMap fun id => (g.node? id).map Node.kind

namespace Graph

variable {g g' : Graph}

theorem kinds_cons {id : NodeId} {node : Node} (h : g.node? id = some node) (ids : List NodeId) :
    g.kinds (id :: ids) = node.kind :: g.kinds ids := by
  unfold kinds
  rw [List.filterMap_cons, h]
  rfl

theorem kinds_append (g : Graph) (ids more : List NodeId) :
    g.kinds (ids ++ more) = g.kinds ids ++ g.kinds more :=
  List.filterMap_append

theorem mem_kinds {ids : List NodeId} {kind : NodeKind} :
    kind ∈ g.kinds ids ↔ ∃ id ∈ ids, ∃ node, g.node? id = some node ∧ node.kind = kind := by
  simp only [kinds, List.mem_filterMap, Option.map_eq_some_iff]

/-- Nodes whose kinds are known one by one. -/
theorem kinds_eq {ids : List NodeId} {kinds : List NodeKind} (hlength : ids.length = kinds.length)
    (h : ∀ (j : Nat) id kind, ids[j]? = some id → kinds[j]? = some kind →
      ∃ node, g.node? id = some node ∧ node.kind = kind) : g.kinds ids = kinds := by
  induction ids generalizing kinds with
  | nil => exact (List.length_eq_zero_iff.mp hlength.symm).symm
  | cons id ids ih =>
      cases kinds with
      | nil => cases hlength
      | cons kind kinds =>
          obtain ⟨node, hnode, hkind⟩ := h 0 id kind rfl rfl
          rw [kinds_cons hnode, hkind, ih (Nat.succ.inj hlength) fun j => h (j + 1)]

theorem length_kinds {ids : List NodeId} (h : ∀ id ∈ ids, ∃ node, g.node? id = some node) :
    (g.kinds ids).length = ids.length := by
  induction ids with
  | nil => rfl
  | cons id ids ih =>
      obtain ⟨node, hnode⟩ := h id List.mem_cons_self
      rw [kinds_cons hnode, List.length_cons, List.length_cons,
        ih fun other hother => h other (List.mem_cons_of_mem _ hother)]

end Graph

variable {σ : Type}

theorem run_fetchKind {g : Graph} {id : NodeId} {node : Node} (h : g.node? id = some node)
    (memory : σ) : (fetchKind id).run (g, memory) = .ok node.kind (g, memory) := by
  have hfetch : (Edit.fetch fun g => (g.node? id).map Node.kind).run g = .ok node.kind g := by
    show Edit.fetch _ g = _
    rw [Edit.fetch, h]
    rfl
  show Edit.inTool _ (g, memory) = _
  rw [Edit.inTool, hfetch]

theorem run_mapM_fetchKind {g : Graph} {ids : List NodeId}
    (h : ∀ id ∈ ids, ∃ node, g.node? id = some node) (memory : σ) :
    (ids.mapM fetchKind).run (g, memory) = .ok (g.kinds ids) (g, memory) := by
  induction ids with
  | nil => rfl
  | cons id ids ih =>
      obtain ⟨node, hnode⟩ := h id List.mem_cons_self
      have hrest := ih fun other hother => h other (List.mem_cons_of_mem _ hother)
      rw [List.mapM_cons, run_bind_of_ok (run_fetchKind hnode memory), run_bind_of_ok hrest,
        Graph.kinds_cons hnode]
      rfl

end SeaOfNodes
