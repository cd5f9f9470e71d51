import Mathlib.Data.List.Count
import SeaOfNodes.Proofs.Lowering.Relocation
import SeaOfNodes.Proofs.Lowering.Totality

/-!
# The order of lowering does not matter

Lowering along two schedules of one graph leaves graphs that differ in the ids of the new nodes only
(`Graph.Corresponds`), and the passes report the same: **`Reachable.confluent`**.

The two final graphs are never compared step by step.  Each is known in terms of the graph before
(`Graph.Lowered`), and there the one description is the relocation of the other.
-/

namespace SeaOfNodes

/-- Two nodes that differ in the ids that they hold: `φ` takes the one to the other.  Only the slots
of attached nodes are edges; what other nodes hold is the same in both. -/
structure Node.Corresponds (φ : NodeId → NodeId) (node node' : Node) : Prop where
  kind : node'.kind = node.kind
  stamp : node'.stamp = node.stamp
  state : node'.state = node.state
  bci : node'.bci = node.bci
  flags : node'.flags = node.flags
  /-- The edges are moved. -/
  slots : node.isAlive = true → node'.slots = node.slots.map (Option.map φ)
  /-- What is no edge stays. -/
  dead_slots : node.isAlive = false → node'.slots = node.slots

namespace Graph

/-- **Two graphs that differ in the ids of their nodes**: `φ` takes the one to the other. -/
structure Corresponds (φ : Equiv.Perm NodeId) (g g' : Graph) : Prop where
  size : g'.size = g.size
  start : g'.start = φ g.start
  locations : g'.locations = g.locations
  nextBci : g'.nextBci = g.nextBci
  /-- Where there is no node, there is none. -/
  absent : ∀ x, g.node? x = none → g'.node? (φ x) = none
  /-- Where there is a node, there is the corresponding one. -/
  node : ∀ x node, g.node? x = some node →
    ∃ node', g'.node? (φ x) = some node' ∧ node.Corresponds φ node'
  /-- Corresponding nodes are in the same use, up to the order. -/
  usages : ∀ x, (g'.usages (φ x)).Perm ((g.usages x).map φ)

variable {g g₁ g₂ : Graph} {config : LoweringConfig} {ids ids₁ ids₂ : List NodeId}
  {p₁ p₂ : Placement} {x : NodeId} {node : Node}

/-- Every slot of an attached node is described, and so all of them are renamed. -/
theorem WellFormed.slots_rename (wf : g.WellFormed) (hnode : g.node? x = some node)
    (halive : node.isAlive = true) (φ : NodeId → NodeId) :
    (node.rename fun _ => φ).slots = node.slots.map (Option.map φ) := by
  apply List.ext_getElem (by simp)
  intro slot hslot _
  rw [Node.length_slots_rename] at hslot
  obtain ⟨info, hinfo, -⟩ := (wf.node hnode).slotsFit halive slot hslot
  simp [Node.rename, hinfo, SlotInfo.rename?]

/-- Redirected nodes correspond. -/
theorem WellFormed.corresponds_redirect (wf : g.WellFormed) (hnode : g.node? x = some node)
    (φ : NodeId → NodeId) : node.Corresponds φ (node.redirect fun _ => φ) where
  kind := Node.kind_redirect _ _
  stamp := Node.stamp_redirect _ _
  state := Node.state_redirect _ _
  bci := Node.bci_redirect _ _
  flags := Node.flags_redirect _ _
  slots halive := by
    rw [Node.redirect_of_isAlive halive]
    exact wf.slots_rename hnode halive φ
  dead_slots hdead := by
    unfold Node.redirect
    rw [hdead]
    rfl

/-- **Usages follow the nodes.**  The usage lists of well-formed graphs are determined by the edges,
up to the order. -/
theorem WellFormed.usages_perm (wf₁ : g₁.WellFormed) (wf₂ : g₂.WellFormed) (φ : Equiv.Perm NodeId)
    (hnode : ∀ x, g₂.node? (φ x) = (g₁.node? x).map (Node.redirect fun _ => φ)) (x : NodeId) :
    (g₂.usages (φ x)).Perm ((g₁.usages x).map φ) := by
  apply List.perm_iff_count.mpr
  intro user'
  obtain ⟨user, rfl⟩ := φ.surjective user'
  rw [List.count_map_of_injective _ φ φ.injective]
  cases huser : g₁.node? user with
  | none =>
      have huser' : g₂.node? (φ user) = none := by rw [hnode, huser]; rfl
      rw [wf₁.absent huser, wf₂.absent huser']
  | some node =>
      have huser' : g₂.node? (φ user) = some (node.redirect fun _ => φ) := by
        rw [hnode, huser]
        rfl
      rw [(wf₁.node huser).count_usages, (wf₂.node huser').count_usages]
      unfold Node.edges
      rw [Node.isAlive_redirect]
      split
      · next halive =>
        rw [Node.redirect_of_isAlive halive, wf₁.slots_rename huser halive]
        exact List.count_map_of_injective node.slots _ (Option.map_injective φ.injective) (some x)
      · rfl

/-! ## Two runs -/

namespace Lowered

variable (h₁ : Lowered config g ids₁ p₁ g₁) (h₂ : Lowered config g ids₂ p₂ g₂)
  (hperm : ids₁.Perm ids₂)

/-- A planned node of the second run is the relocated one of the first. -/
theorem node?_relocate_new (wf : g.WellFormed) {id : NodeId} (hid : id ∈ ids₁) {j : Nat}
    (hj : j < (p₁.plan id).size) :
    g₂.node? (h₁.relocation h₂ hperm ((p₁.base id).advance j)) =
      (g₁.node? ((p₁.base id).advance j)).map
        (Node.redirect fun _ => h₁.relocation h₂ hperm) := by
  obtain ⟨planned, hplanned, hnode⟩ := h₁.exists_planned hid hj
  have hfull := LoweringConfig.full_of_planOf (h₁.planned id hid)
  have hnodes : (p₂.plan id).nodes (p₂.base id) =
      ((p₁.plan id).nodes (p₁.base id)).map (Node.rename fun _ => h₁.relocation h₂ hperm) := by
    rw [h₁.plan_relocate h₂ hperm wf hid]
    exact hfull.nodes_rename fun j hj => h₁.relocation_advance h₂ hperm hid hj
  have hplanned₂ : ((p₂.plan id).nodes (p₂.base id))[j]? =
      some (planned.rename fun _ => h₁.relocation h₂ hperm) := by
    rw [hnodes, List.getElem?_map, hplanned]
    rfl
  rw [h₁.relocation_advance h₂ hperm hid hj, hnode, Option.map_some,
    h₂.new id (hperm.mem_iff.mp hid) j _ hplanned₂, Node.redirect_of_isAlive (by rfl),
    Node.settled_rename, Node.rename_rename, Node.rename_rename]
  -- relocating first and replacing then is replacing first and relocating then
  simp only [h₁.successor_relocate h₂ hperm wf]

/-- An old node that was not lowered holds, after the second run, the relocated ids. -/
theorem node?_relocate_old (wf : g.WellFormed) (hx : x ∉ ids₁) (hlt : x.index < g.size) :
    g₂.node? x = (g₁.node? x).map (Node.redirect fun _ => h₁.relocation h₂ hperm) := by
  rw [h₂.old x (fun hmem => hx (hperm.mem_iff.mpr hmem)) hlt, h₁.old x hx hlt]
  cases hnode : g.node? x with
  | none => rfl
  | some node =>
      -- before the runs there is nothing to relocate in the node
      have hfixed : node.redirect (fun _ => h₁.relocation h₂ hperm) = node :=
        wf.redirect_of_fixes (fun _ => h₁.relocation_of_lt h₂ hperm) hnode
      refine congrArg some ?_
      calc node.redirect (p₂.successor ids₂)
          = (node.redirect fun _ => h₁.relocation h₂ hperm).redirect (p₂.successor ids₂) := by
            rw [hfixed]
        _ = node.redirect fun type d =>
              p₂.successor ids₂ type (h₁.relocation h₂ hperm d) := Node.redirect_redirect _ _ _
        _ = node.redirect fun type d =>
              h₁.relocation h₂ hperm (p₁.successor ids₁ type d) := by
            simp only [h₁.successor_relocate h₂ hperm wf]
        _ = (node.redirect (p₁.successor ids₁)).redirect fun _ => h₁.relocation h₂ hperm :=
            (Node.redirect_redirect _ _ _).symm

/-- **The relocation takes the nodes of the one graph to those of the other.** -/
theorem node?_relocate (wf : g.WellFormed) (x : NodeId) :
    g₂.node? (h₁.relocation h₂ hperm x) =
      (g₁.node? x).map (Node.redirect fun _ => h₁.relocation h₂ hperm) := by
  by_cases hnew : x ∈ ids₁.flatMap p₁.block
  · obtain ⟨id, hid, hmem⟩ := List.mem_flatMap.mp hnew
    obtain ⟨j, hj, rfl⟩ := List.mem_map.mp hmem
    exact h₁.node?_relocate_new h₂ hperm wf hid (List.mem_range.mp hj)
  · have hfixed : h₁.relocation h₂ hperm x = x := Placement.relocate_of_notMem hnew p₂
    rw [hfixed]
    by_cases hlt : x.index < g.size
    · by_cases hx : x ∈ ids₁
      · rw [h₁.lowered x hx, h₂.lowered x (hperm.mem_iff.mp hx), Option.map_map]
        refine congrArg (Option.map · _) ?_
        funext found
        exact (Node.redirect_buried _ found).symm
      · exact h₁.node?_relocate_old h₂ hperm wf hx hlt
    · rw [h₁.mem_blocks_iff, not_and] at hnew
      have hge : g₁.size ≤ x.index := Nat.le_of_not_lt (hnew (Nat.le_of_not_lt hlt))
      have hge₂ : g₂.size ≤ x.index := (h₁.size_eq h₂ hperm).symm ▸ hge
      rw [(g₁.node?_eq_none_iff x).mpr hge, (g₂.node?_eq_none_iff x).mpr hge₂]
      rfl

/-- **The final graphs correspond.** -/
theorem corresponds (wf : g.WellFormed) : Corresponds (h₁.relocation h₂ hperm) g₁ g₂ where
  size := h₁.size_eq h₂ hperm
  start := by
    obtain ⟨node, hnode, -⟩ := wf.start
    rw [h₂.start, h₁.start, h₁.relocation_of_lt h₂ hperm (lt_size_of_node? hnode)]
  locations := h₂.locations.trans h₁.locations.symm
  nextBci := h₂.nextBci.trans h₁.nextBci.symm
  absent x hnode := by
    rw [h₁.node?_relocate h₂ hperm wf, hnode]
    rfl
  node x node hnode := by
    refine ⟨node.redirect fun _ => h₁.relocation h₂ hperm, ?_, ?_⟩
    · rw [h₁.node?_relocate h₂ hperm wf, hnode]
      rfl
    · exact h₁.wellFormed.corresponds_redirect hnode _
  usages := h₁.wellFormed.usages_perm h₂.wellFormed _ (h₁.node?_relocate h₂ hperm wf)

end Lowered

/-- The reports of both runs are the same. -/
theorem Lowered.report_eq_report (h₁ : Lowered config g ids₁ p₁ g₁)
    (h₂ : Lowered config g ids₂ p₂ g₂) (hs₁ : g.Schedules ids₁) (hs₂ : g.Schedules ids₂) :
    config.report g ids₁ g₁ = config.report g ids₂ g₂ := by
  have hperm := hs₁.perm hs₂
  have hkinds : (g.kinds ids₁).Perm (g.kinds ids₂) := hperm.filterMap _
  have hcount : g₁.liveCount = g₂.liveCount := by
    have hlive₁ := h₁.liveCount_add hs₁
    have hlive₂ := h₂.liveCount_add hs₂
    have hsize := h₁.size_eq h₂ hperm
    rw [h₁.size, h₂.size] at hsize
    have hlength := hperm.length_eq
    omega
  unfold LoweringConfig.report
  rw [hcount, LoweringStats.tally_perm _ hkinds (hkinds.flatMap_right _)]

/-- **The order of lowering does not matter.**  Along any two schedules of a graph that a run leads
to, node by node or by the pass, lowering succeeds; the final graphs differ by a permutation of ids
that moves none of the old ones, and the passes report the same.  The orders of both traversals are
schedules. -/
theorem Reachable.confluent (h : g.Reachable) (config : LoweringConfig) (hs₁ : g.Schedules ids₁)
    (hs₂ : g.Schedules ids₂) :
    (∃ (g₁ g₂ : Graph) (rs₁ rs₂ : List Replacement) (stats : LoweringStats)
        (φ : Equiv.Perm NodeId),
      (ids₁.mapM (lowerNode config.tool)).run (g, ()) = .ok rs₁ (g₁, ()) ∧
      (ids₂.mapM (lowerNode config.tool)).run (g, ()) = .ok rs₂ (g₂, ()) ∧
      (runPass config (fun _ => ids₁) config.tool).run (g, ()) = .ok stats (g₁, ()) ∧
      (runPass config (fun _ => ids₂) config.tool).run (g, ()) = .ok stats (g₂, ()) ∧
      (∀ x : NodeId, x.index < g.size → φ x = x) ∧
      (∀ x : NodeId, g₁.size ≤ x.index → φ x = x) ∧
      Corresponds φ g₁ g₂) ∧
    ∀ traversal : Traversal, g.Schedules (traversal.order g) := by
  refine ⟨?_, fun traversal => traversal.schedules_order g⟩
  have wf := h.wellFormed
  obtain ⟨p₁, g₁, h₁, hmapM₁, hpass₁⟩ := wf.run_runPass config (fun _ => ids₁) hs₁
  obtain ⟨p₂, g₂, h₂, hmapM₂, hpass₂⟩ := wf.run_runPass config (fun _ => ids₂) hs₂
  have hperm := hs₁.perm hs₂
  rw [← h₁.report_eq_report h₂ hs₁ hs₂] at hpass₂
  exact ⟨g₁, g₂, _, _, _, h₁.relocation h₂ hperm, hmapM₁, hmapM₂, hpass₁, hpass₂,
    fun _ => h₁.relocation_of_lt h₂ hperm, fun _ => h₁.relocation_of_size_le h₂ hperm,
    h₁.corresponds h₂ hperm wf⟩

/-- The store and the load may be lowered in either order. -/
theorem confluent_storeThenLoad :
    ∃ (g₁ g₂ : Graph) (stats : LoweringStats) (φ : Equiv.Perm NodeId),
      (runPass .forTesting (fun _ => [⟨5⟩, ⟨6⟩]) (LoweringConfig.tool .forTesting)).run
        (storeThenLoad, ()) = .ok stats (g₁, ()) ∧
      (runPass .forTesting (fun _ => [⟨6⟩, ⟨5⟩]) (LoweringConfig.tool .forTesting)).run
        (storeThenLoad, ()) = .ok stats (g₂, ()) ∧ Corresponds φ g₁ g₂ := by
  have hcreation : storeThenLoad.lowerables = [⟨5⟩, ⟨6⟩] := by decide +kernel
  have hs₁ : storeThenLoad.Schedules [⟨5⟩, ⟨6⟩] := hcreation ▸ schedules_lowerables _
  have hs₂ : storeThenLoad.Schedules [⟨6⟩, ⟨5⟩] :=
    ⟨by decide, fun {id} => by rw [← hs₁.mem_iff]; simp [or_comm]⟩
  obtain ⟨⟨g₁, g₂, -, -, stats, φ, -, -, hpass₁, hpass₂, -, -, hcorresponds⟩, -⟩ :=
    Reachable.confluent reachable_storeThenLoad .forTesting hs₁ hs₂
  exact ⟨g₁, g₂, stats, φ, hpass₁, hpass₂, hcorresponds⟩

end Graph

end SeaOfNodes
