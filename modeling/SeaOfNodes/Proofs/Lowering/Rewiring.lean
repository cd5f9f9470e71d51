import SeaOfNodes.Proofs.Lowering.Outcome

/-!
# What a replacement changes

When a lowering succeeds, the graph that the tool has left and the final graph differ by the
replacement alone.  `Graph.Rewires` lists the difference, slot by slot and field by field: the edges
to the node go to the targets of their roles, the node is replaced, holds nothing and is in no use,
the nodes of the replacement are marked, and that is all.

**`Reaches.lowerNode_rewires`** says so for every run and every tool that acts by runs.  Nothing is
asked of the nodes that enter the graph.

### What is load-bearing

Usages are moved role by role, and each turn looks up the users again.  A slot is filled in the turn
of its own role, and what it holds then is not the node, since targets are other nodes; so no slot
is hit twice (`Balanced.run_substitute`, where the turns add up to one renaming).  Targets are other
nodes because the lowering has succeeded (`Reinstates`).

The users of a node are the attached nodes that hold it.  A detached node may hold it as well, but
its slots are no edges: they are not looked at, and still hold the node when it is replaced
(`not_rewires_detachedReturn`).
-/

namespace SeaOfNodes

namespace Graph

variable {σ : Type} {tool : LoweringTool σ} {memory memory' memory'' : σ} {admits : Node → Prop}
  {g g' h : Graph} {node : Node} {id x : NodeId} {r : Replacement} {killed : Option Checkpoint}

/-- **The difference that a replacement makes.**  The replacement `r` for `id` was carried out in
`h`, and has led to `g'`. -/
structure Rewires (id : NodeId) (r : Replacement) (h g' : Graph) : Prop where
  /-- The node was attached; it is replaced and holds nothing, and is as it was otherwise. -/
  replaced : ∃ node, h.node? id = some node ∧ node.isAlive = true ∧
    g'.node? id = some { node with slots := [], state := .replaced }
  /-- The node is in no use. -/
  unused : g'.usages id = []
  /-- Every edge to the node leads to the target of its role. -/
  moved : ∀ {x node slot}, x ≠ id → h.node? x = some node → node.isAlive = true →
    node.input slot = some id → ∃ info target, node.slotInfo slot = some info ∧
      r.target info.inputType = some target ∧ g'.input x slot = some target
  /-- Every other slot holds what it held. -/
  unmoved : ∀ {x node slot}, x ≠ id → h.node? x = some node →
    (node.isAlive = true → node.input slot ≠ some id) → g'.input x slot = node.input slot
  /-- Apart from what its slots hold, another node changes only by the mark of the replacement. -/
  kept : ∀ {x node}, x ≠ id → h.node? x = some node → ∃ slots : List (Option NodeId),
    slots.length = node.slots.length ∧ g'.node? x = some { node with
      slots := slots
      flags :=
        if x ∈ r.nodes ∧ node.isAlive = true then { node.flags with lowered := true }
        else node.flags }
  /-- No node is new, and nothing else has changed. -/
  frame : SameFrame h g'

/-! ## Lowerings that succeed -/

/-- A lowering succeeds only if the tool does, and its replacement is accepted and carried out. -/
theorem exists_of_run_lowerNode
    (hlower : (lowerNode tool id).run (g, memory) = .ok r (g', memory')) :
    ∃ h, (tool id).run (g, memory) = .ok r (h, memory') ∧
      h.checkReplacement id (g.checkpoint? id) r = .ok () ∧
      (substitute id r).run h = .ok () g' := by
  have hid : g.isLowerable id = true := Classical.not_not.mp fun hid => by
    obtain ⟨v, hrefused⟩ := run_lowerNode_of_not_isLowerable tool hid memory
    cases hlower.symm.trans hrefused
  rw [run_lowerNode_eq tool (requireLowerable_of_isLowerable hid)] at hlower
  rcases hrun : (tool id).run (g, memory) with ⟨r₁, h, memory₁⟩ | ⟨v | _, h, memory₁⟩ <;>
    rw [hrun] at hlower <;> dsimp only at hlower
  · rcases hcheck : h.checkReplacement id (g.checkpoint? id) r₁ with v | _ <;>
      rw [hcheck] at hlower <;> dsimp only at hlower
    · cases hlower
    · rcases hsubstitute : (substitute id r₁).run h with ⟨_, g₁⟩ | ⟨e, g₁⟩ <;>
        rw [hsubstitute] at hlower <;> cases hlower
      exact ⟨h, rfl, hcheck, hsubstitute⟩
  · cases hlower
  · cases hlower

/-- What a lowering that succeeds has met: the access was attached when its replacement was
accepted, and the replacement was carried out. -/
theorem substitute_of_run_lowerNode (hlowerable : g.requireLowerable id = .ok killed)
    (hrun : (tool id).run (g, memory) = .ok r (h, memory'))
    (hlower : (lowerNode tool id).run (g, memory) = .ok r (g', memory'')) :
    h.checkReplacement id killed r = .ok () ∧ (substitute id r).run h = .ok () g' := by
  have hid := isLowerable_of_requireLowerable hlowerable
  cases hlowerable.symm.trans (requireLowerable_of_isLowerable hid)
  obtain ⟨_, hrun', hcheck, hsubstitute⟩ := exists_of_run_lowerNode hlower
  cases hrun.symm.trans hrun'
  exact ⟨hcheck, hsubstitute⟩

/-- A node that is not attached is not replaced. -/
theorem Balanced.isAlive_of_run_substitute (b : h.Balanced)
    (hsubstitute : (substitute id r).run h = .ok () g') : h.isAlive id = true := by
  refine Bool.not_eq_false _ ▸ fun hdead => ?_
  have hroles : h.usedRoles id = [] := by
    rw [usedRoles, List.filter_eq_nil_iff]
    intro type _ hused
    rw [usageSites, users, b.usages_eq_nil hdead] at hused
    cases hused
  have hretire : ∃ v, (retire id).run h = .error (.violation v) h := by
    rw [run_retire]
    rcases hcheck : h.checkRetire id with v | _
    · exact ⟨v, rfl⟩
    · rw [(checkRetire_eq_ok_iff.mp hcheck).1] at hdead
      cases hdead
  obtain ⟨v, hretire⟩ := hretire
  rw [substitute, Edit.run_get_bind, hroles] at hsubstitute
  have hmove : (moveUsages id r []).run h = .ok () h := rfl
  rw [run_bind_of_ok hmove, run_bind_of_error hretire] at hsubstitute
  cases hsubstitute

/-- An accepted replacement that was carried out does not reinstate the node. -/
theorem Balanced.not_reinstates_of_run_substitute (b : h.Balanced)
    (hcheck : h.checkReplacement id killed r = .ok ())
    (hsubstitute : (substitute id r).run h = .ok () g') : ¬ h.Reinstates id r := by
  intro reinstates
  obtain ⟨_, hfails, -⟩ := b.run_substitute_of_reinstates (b.isAlive_of_run_substitute hsubstitute)
    (fun type htype => serves_of_checkReplacement hcheck htype) reinstates
  cases hsubstitute.symm.trans hfails

/-! ## Slots -/

/-- An edge to the node is redirected to the target of its role. -/
theorem Balanced.input_redirect_reroute (b : h.Balanced)
    (hcheck : h.checkReplacement id killed r = .ok ()) (hnode : h.node? x = some node)
    (halive : node.isAlive = true) {slot : Nat} (hinput : node.input slot = some id) :
    ∃ info target, node.slotInfo slot = some info ∧ r.target info.inputType = some target ∧
      (node.redirect (reroute id r)).input slot = some target := by
  obtain ⟨info, hinfo, -⟩ := b.serves_of_input hnode halive hinput
  obtain ⟨target, htarget, -⟩ := serves_of_checkReplacement hcheck
    (b.mem_usedRoles_of_input hnode halive hinfo hinput)
  refine ⟨info, target, hinfo, htarget, ?_⟩
  rw [Node.redirect_of_isAlive halive, Node.input_rename_of_slotInfo hinfo, hinput,
    Option.map_some, reroute, if_pos rfl, htarget, Option.getD_some]

/-- What is no edge to the node is not redirected. -/
theorem input_redirect_reroute_of_ne {slot : Nat}
    (hother : node.isAlive = true → node.input slot ≠ some id) :
    (node.redirect (reroute id r)).input slot = node.input slot := by
  by_cases halive : node.isAlive = true
  · rw [Node.redirect_of_isAlive halive, Node.input_rename]
    cases node.slotInfo slot with
    | none => rfl
    | some info =>
        cases hinput : node.input slot with
        | none => rfl
        | some d =>
            have hne : d ≠ id := fun he => hother halive (he ▸ hinput)
            exact congrArg some (if_neg hne)
  · rw [Node.redirect, if_neg halive]

/-! ## The difference -/

/-- **An accepted replacement that was carried out makes the difference that it should.** -/
theorem Balanced.rewires (b : h.Balanced) (hcheck : h.checkReplacement id killed r = .ok ())
    (hsubstitute : (substitute id r).run h = .ok () g') : Rewires id r h g' := by
  obtain ⟨node, hnode, halive⟩ := isAlive_iff_exists.mp (b.isAlive_of_run_substitute hsubstitute)
  have hnot := b.not_reinstates_of_run_substitute hcheck hsubstitute
  obtain ⟨_, hrun, b', hframe, hfind⟩ := b.run_substitute hnode halive
    fun type htype => exists_target_of_not_reinstates hcheck hnot htype
  cases hsubstitute.symm.trans hrun
  have hid : g'.node? id = some node.buried := by rw [hfind, if_pos rfl]
  -- the mark is put on the redirected node
  have hmarked : ∀ {x found}, x ≠ id → h.node? x = some found → g'.node? x = some
      { found.redirect (reroute id r) with
        flags :=
          if x ∈ r.nodes ∧ found.isAlive = true then { found.flags with lowered := true }
          else found.flags } := by
    intro x found hx hfound
    rw [hfind, if_neg (Ne.symm hx), hfound, Option.map_some, ← found.flags_redirect (reroute id r)]
    split <;> rfl
  have hinput : ∀ {x found slot}, x ≠ id → h.node? x = some found →
      g'.input x slot = (found.redirect (reroute id r)).input slot := by
    intro x found slot hx hfound
    rw [input, hmarked hx hfound]
    rfl
  refine ⟨⟨node, hnode, halive, hid⟩, b'.usages_eq_nil ?_, ?_, ?_, ?_, hframe⟩
  · rw [isAlive, hid]
    rfl
  · intro x found slot hx hfound hattached hheld
    rw [hinput hx hfound]
    exact b.input_redirect_reroute hcheck hfound hattached hheld
  · intro x found slot hx hfound hother
    rw [hinput hx hfound]
    exact input_redirect_reroute_of_ne hother
  · intro x found hx hfound
    refine ⟨(found.redirect (reroute id r)).slots, found.length_slots_redirect _, ?_⟩
    rw [hmarked hx hfound]
    simp only [Node.kind_redirect, Node.stamp_redirect, Node.state_redirect, Node.bci_redirect]

/-- **What a lowering changes.**  A run leads from a new graph to `g`, and the tool acts in `g` by a
run.  If the lowering of `id` succeeds, then the tool has answered the replacement, and the graph
that it has left and the final graph differ as `Rewires` says. -/
theorem Reaches.lowerNode_rewires (reached : Reaches admits new g)
    (acts : Reaches admits g ((tool id).after g memory))
    (hlower : (lowerNode tool id).run (g, memory) = .ok r (g', memory')) :
    ∃ h, (tool id).run (g, memory) = .ok r (h, memory') ∧ Rewires id r h g' := by
  obtain ⟨h, hrun, hcheck, hsubstitute⟩ := exists_of_run_lowerNode hlower
  have hafter : (tool id).after g memory = h := by rw [ToolM.after, hrun]
  have b : h.Balanced := (hafter ▸ acts.changes reached.balanced).balanced reached.balanced
  exact ⟨h, hrun, b.rewires hcheck hsubstitute⟩

/-- The load behind the write of `storeThenLoad` continues from the new store and depends on it; it
loads from the address that it had. -/
theorem lowerNode_rewires_storeOnly :
    ∃ g', (lowerNode (storeOnly false) ⟨5⟩).run (storeThenLoad, ()) =
        .ok { control := some ⟨8⟩, memory := some ⟨8⟩, nodes := [⟨8⟩] } (g', ()) ∧
      g'.usages ⟨5⟩ = [] ∧ g'.input ⟨6⟩ 0 = some ⟨8⟩ ∧ g'.input ⟨6⟩ 3 = some ⟨8⟩ ∧
      g'.input ⟨6⟩ 1 = some ⟨3⟩ := by
  have acts : Reaches Node.Built storeThenLoad ((storeOnly false ⟨5⟩).after storeThenLoad ()) :=
    enlarges_storeBeside.constructs.reaches
  obtain ⟨g', hlower⟩ := exists_run_lowerNode_storeOnly
  obtain ⟨h, hrun, rewires⟩ := Reaches.lowerNode_rewires reachable_storeThenLoad acts hlower
  obtain rfl : storeBeside = h := by
    cases hrun
    rfl
  obtain ⟨load, hload, halive, hcontrol, hmemory, haddress⟩ : ∃ load,
      storeBeside.node? ⟨6⟩ = some load ∧ load.isAlive = true ∧
        load.input 0 = some ⟨5⟩ ∧ load.input 3 = some ⟨5⟩ ∧ load.input 1 = some ⟨3⟩ :=
    ⟨_, rfl, by decide +kernel⟩
  have hne : (⟨6⟩ : NodeId) ≠ ⟨5⟩ := by decide
  obtain ⟨_, _, hinfo, htarget, hmoved⟩ := rewires.moved hne hload halive hcontrol
  obtain ⟨_, _, hinfo', htarget', hmoved'⟩ := rewires.moved hne hload halive hmemory
  cases hload
  cases hinfo
  cases hinfo'
  cases htarget
  cases htarget'
  have hunmoved := rewires.unmoved hne rfl fun _ => by
    rw [haddress]
    decide
  exact ⟨g', hlower, rewires.unused, hmoved, hmoved', hunmoved.trans haddress⟩

/-- `storeThenLoad` with a return that was not inserted; its control slot holds the write. -/
def detachedReturn : Graph :=
  (addDetached (.withInputs .ret .control [some ⟨5⟩, none])).after storeThenLoad

/-- The slot of the detached return is no edge.  The write is replaced, and the slot still holds it,
and not the store that control continues from. -/
theorem not_rewires_detachedReturn :
    ∃ r h g', Reaches Node.Built new detachedReturn ∧
      detachedReturn.isLowerable ⟨5⟩ = true ∧
      Reaches Node.Built detachedReturn ((storeOnly false ⟨5⟩).after detachedReturn ()) ∧
      (storeOnly false ⟨5⟩).run (detachedReturn, ()) = .ok r (h, ()) ∧
      (lowerNode (storeOnly false) ⟨5⟩).run (detachedReturn, ()) = .ok r (g', ()) ∧
      ¬ ∀ x node slot info, x ≠ ⟨5⟩ → h.node? x = some node → node.slotInfo slot = some info →
        node.input slot = some ⟨5⟩ → g'.input x slot = r.target info.inputType := by
  let r : Replacement := { control := some ⟨9⟩, memory := some ⟨9⟩, nodes := [⟨9⟩] }
  let h : Graph := (add (.withInputs (.rawStore ⟨LocationUniverse.anyId, .int, .plain⟩) .void
    [some ⟨0⟩, some ⟨3⟩, some ⟨4⟩])).after detachedReturn
  have reached : Reaches Node.Built new detachedReturn :=
    .edit reachable_storeThenLoad (.addDetached (Node.built_withInputs _ _ _))
  have acts : Reaches Node.Built detachedReturn h :=
    .edit (.refl _) (.add (Node.built_withInputs _ _ _))
  have b : h.Balanced := (acts.wellFormed (fun _ built => built)
    (Reachable.wellFormed reached)).toBalanced
  have hid : detachedReturn.isLowerable ⟨5⟩ = true := by decide +kernel
  have hrun : (storeOnly false ⟨5⟩).run (detachedReturn, ()) = .ok r (h, ()) := rfl
  have hcheck : h.checkReplacement ⟨5⟩ (detachedReturn.checkpoint? ⟨5⟩) r = .ok () := by
    decide +kernel
  obtain ⟨g', hlower, -⟩ := b.run_lowerNode_of_not_reinstates hid (by decide +kernel) hrun hcheck
    (by decide +kernel)
  refine ⟨r, h, g', reached, hid, acts, hrun, hlower, fun hall => ?_⟩
  obtain ⟨-, hsubstitute⟩ :=
    substitute_of_run_lowerNode (requireLowerable_of_isLowerable hid) hrun hlower
  have rewires := b.rewires hcheck hsubstitute
  obtain ⟨node, hnode, hdead, hinput⟩ : ∃ node, h.node? ⟨8⟩ = some node ∧ node.isAlive = false ∧
      node.input 0 = some ⟨5⟩ := ⟨_, rfl, by decide +kernel⟩
  have hne : (⟨8⟩ : NodeId) ≠ ⟨5⟩ := by decide
  have hunmoved : g'.input ⟨8⟩ 0 = node.input 0 :=
    rewires.unmoved hne hnode fun halive => absurd (hdead.symm.trans halive) nofun
  obtain ⟨info, hinfo, htarget⟩ : ∃ info, node.slotInfo 0 = some info ∧
      r.target info.inputType = some ⟨9⟩ := by
    cases hnode
    exact ⟨_, rfl, rfl⟩
  have hmoved := hall ⟨8⟩ node 0 info hne hnode hinfo hinput
  rw [hunmoved, hinput, htarget] at hmoved
  exact absurd hmoved (by decide)

end Graph

end SeaOfNodes
