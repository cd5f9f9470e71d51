import SeaOfNodes.Proofs.Lowering.Rewiring

/-!
# The memory effect of a replacement

What a replaced access killed must be killed by its replacement.  The check looks for a listed node
that kills the location (`Checkpoint.any_covers_joinAll`: that is all there is to the joint
checkpoint), and it looks at what the node is, not at whether it is attached.  So the listed node
that satisfies the check may have left the graph before, and it may be the access itself, which
leaves the graph with the replacement.

**`Reachable.lowerNode_covers_iff`** says what the check ensures, and what must be true in addition
for the effect to be in the graph afterwards: that one of the listed nodes that kill the location is
attached, and another node than the access.
-/

namespace SeaOfNodes

namespace Graph

variable {σ : Type} {tool : LoweringTool σ} {memory memory' memory'' : σ} {g g' h : Graph}
  {node : Node} {id x : NodeId} {r : Replacement} {location : LocationId}

/-- A node of the same kind kills the same, under the same locations. -/
theorem covers_congr (hlocations : g'.locations = g.locations)
    (hkind : (g'.node? x).map Node.kind = (g.node? x).map Node.kind) (location : LocationId) :
    g'.covers x location = g.covers x location := by
  have hcheckpoint : g'.checkpoint? x = g.checkpoint? x := by
    have hread : ∀ k : Graph, k.checkpoint? x =
        ((k.node? x).map Node.kind).bind fun kind => kind.kills.map .single := by
      intro k
      cases hx : k.node? x with
      | none =>
          rw [checkpoint?, hx]
          rfl
      | some node => exact checkpoint?_of_node? hx
    rw [hread, hread, hkind]
  rw [covers, covers, hcheckpoint, hlocations]

/-- **What is left of the graph when an accepted replacement was carried out**: the access is not
attached any more; every other node is what it was, and attached if it was. -/
theorem Balanced.kept_of_substitute (b : h.Balanced) {killed : Option Checkpoint}
    (hcheck : h.checkReplacement id killed r = .ok ())
    (hsubstitute : (substitute id r).run h = .ok () g') :
    g'.isAlive id = false ∧ g'.locations = h.locations ∧
      ∀ x ≠ id, g'.isAlive x = h.isAlive x ∧
        (g'.node? x).map Node.kind = (h.node? x).map Node.kind := by
  have rewires := b.rewires hcheck hsubstitute
  obtain ⟨node, -, -, hid⟩ := rewires.replaced
  refine ⟨by rw [isAlive, hid]; rfl, rewires.frame.locations, fun x hx => ?_⟩
  cases hnode : h.node? x with
  | none =>
      have hnone : g'.node? x = none := by
        rw [node?_eq_none_iff] at hnode ⊢
        rwa [rewires.frame.size]
      exact ⟨by rw [isAlive, isAlive, hnone, hnode], by rw [hnone]⟩
  | some found =>
      obtain ⟨slots, -, hnode'⟩ := rewires.kept hx hnode
      exact ⟨by rw [isAlive, isAlive, hnode', hnode]; rfl, by rw [hnode']; rfl⟩

/-- **The effect of a lowered write or swap.**  In a graph that a run leads to, let an access that
kills `location` be lowered, by any tool, and successfully.  Then one of the listed nodes kills the
location.  An attached one does so afterwards if and only if, when the replacement was looked at, an
attached one did so that was not the access itself. -/
theorem Reachable.lowerNode_covers_iff (reachable : g.Reachable) (hid : g.isLowerable id = true)
    (hnode : g.node? id = some node) (hkills : node.kind.kills = some location)
    (hrun : (tool id).run (g, memory) = .ok r (h, memory')) (acts : Reaches Node.Built g h)
    (hlower : (lowerNode tool id).run (g, memory) = .ok r (g', memory'')) :
    (∃ x ∈ r.nodes, h.covers x location = true) ∧
      ((∃ x ∈ r.nodes, g'.isAlive x = true ∧ g'.covers x location = true) ↔
        ∃ x ∈ r.nodes, x ≠ id ∧ h.isAlive x = true ∧ h.covers x location = true) := by
  have wf : h.WellFormed := (acts.leads (fun _ hbuilt => hbuilt) reachable.wellFormed).wellFormed
    (fun _ hbuilt => hbuilt) reachable.wellFormed
  obtain ⟨hcheck, hsubstitute⟩ :=
    substitute_of_run_lowerNode (requireLowerable_of_isLowerable hid) hrun hlower
  constructor
  · have hcovered := (checkReplacement_eq_ok_iff.mp hcheck).2
    rw [checkpoint?_of_node? hnode, hkills, Option.map_some, Option.all_some,
      killsAll_single wf.any, List.any_eq_true] at hcovered
    exact hcovered
  · obtain ⟨hgone, hlocations, hkept⟩ := wf.kept_of_substitute hcheck hsubstitute
    refine exists_congr fun x => and_congr_right fun _ => ?_
    by_cases hx : x = id
    · subst hx
      simp [hgone]
    · obtain ⟨halive, hkind⟩ := hkept x hx
      rw [halive, covers_congr hlocations hkind]
      simp [hx]

/-- With the store of `storeOnly` in the place of the write, its location is still killed. -/
theorem covers_storeOnly :
    ∃ g', (lowerNode (storeOnly false) ⟨5⟩).run (storeThenLoad, ()) =
        .ok { control := some ⟨8⟩, memory := some ⟨8⟩, nodes := [⟨8⟩] } (g', ()) ∧
      ∃ x ∈ [(⟨8⟩ : NodeId)], g'.isAlive x = true ∧
        g'.covers x LocationUniverse.anyId = true := by
  have hid : storeThenLoad.isLowerable ⟨5⟩ = true := by decide +kernel
  have acts := enlarges_storeBeside.constructs.reaches
  have wf := enlarges_storeBeside.constructs.wellFormed (fun _ h => h)
    reachable_storeThenLoad.wellFormed
  obtain ⟨node, hnode, hkills⟩ : ∃ node, storeThenLoad.node? ⟨5⟩ = some node ∧
      node.kind.kills = some LocationUniverse.anyId := ⟨_, rfl, rfl⟩
  have hrun : (storeOnly false ⟨5⟩).run (storeThenLoad, ()) =
      .ok { control := some ⟨8⟩, memory := some ⟨8⟩, nodes := [⟨8⟩] } (storeBeside, ()) := rfl
  obtain ⟨g', hlower, -⟩ := wf.run_lowerNode_of_not_reinstates hid (by decide +kernel) hrun
    (by decide +kernel) (by decide +kernel)
  have hcovers := Reachable.lowerNode_covers_iff reachable_storeThenLoad hid hnode hkills hrun acts
    hlower
  exact ⟨g', hlower, hcovers.2.mpr (by decide +kernel)⟩

/-- A tool that drops a write: control and memory continue from the start node, and the write itself
is listed as its expansion. -/
def dropWrite : LoweringTool Unit := .ofEdit fun id =>
  return { control := some ⟨0⟩, memory := some ⟨0⟩, nodes := [id] }

/-- The replacement is accepted and carried out, and the location is killed by no listed node. -/
theorem not_covers_dropWrite :
    storeThenLoad.Reachable ∧ storeThenLoad.isLowerable ⟨5⟩ = true ∧
      ((storeThenLoad.node? ⟨5⟩).bind (·.kind.kills)) = some LocationUniverse.anyId ∧
      Enlarges Node.Built storeThenLoad ((dropWrite ⟨5⟩).after storeThenLoad ()) ∧
      ∃ r g', (lowerNode dropWrite ⟨5⟩).run (storeThenLoad, ()) = .ok r (g', ()) ∧
        ¬ ∃ x ∈ r.nodes, g'.isAlive x = true ∧
          g'.covers x LocationUniverse.anyId = true := by
  have hid : storeThenLoad.isLowerable ⟨5⟩ = true := by decide +kernel
  let r : Replacement := { control := some ⟨0⟩, memory := some ⟨0⟩, nodes := [⟨5⟩] }
  have hrun : (dropWrite ⟨5⟩).run (storeThenLoad, ()) = .ok r (storeThenLoad, ()) := rfl
  obtain ⟨g', hlower, hstate⟩ := reachable_storeThenLoad.wellFormed.run_lowerNode_of_not_reinstates
    hid (by decide +kernel) hrun (by decide +kernel) (by decide +kernel)
  refine ⟨reachable_storeThenLoad, hid, rfl, .refl, r, g', hlower, ?_⟩
  rintro ⟨x, hx, halive, -⟩
  obtain rfl := List.mem_singleton.mp hx
  obtain ⟨node, hnode, hnodeAlive⟩ := isAlive_iff_exists.mp halive
  rw [state?, hnode] at hstate
  cases hstate.symm.trans (congrArg some ((NodeState.isAlive_iff _).mp hnodeAlive))

end Graph

end SeaOfNodes
