import SeaOfNodes.Proofs.Lowering.Leftovers

/-!
# What becomes of an accepted replacement

Once a replacement is accepted, the usages of the node are moved role by role, and then the node is
given up.  Moving cannot fail.  Giving the node up does, if it is still in use, and after the moves
it is in use exactly if the replacement names the node itself as the target of a role in which it
was used: `Graph.Reinstates`.  The check admits that, since the node is attached and allows the
role; and nothing is taken back any more, so that the roles with other targets stay moved, and the
expansion stays in the graph.

**`Reachable.lowerNode_replaces_iff`** says for tools that only add nodes that this is all that can
happen to an accepted replacement, and that every other failure leaves the old graph alone.
-/

namespace SeaOfNodes

namespace Graph

variable {α : Type} {admits : Node → Prop} {m : Edit α} {g g' h : Graph} {node : Node}
  {id x : NodeId} {r : Replacement}

/-! ## Tools that only add -/

/-- The edits that add a node, attached or detached, with any arguments. -/
inductive Addition (admits : Node → Prop) : {α : Type} → Edit α → Prop where
  | create {α : Type} {m : Edit α} (creation : Creation admits m) : Addition admits m
  | addDetached {node : Node} (admitted : admits node) : Addition admits (addDetached node)

/-- `Enlarges admits g h`: nodes that were added lead from `g` to `h`. -/
inductive Enlarges (admits : Node → Prop) (g : Graph) : Graph → Prop where
  /-- Nothing was added. -/
  | refl : Enlarges admits g g
  /-- One more node was added, or refused. -/
  | add {h : Graph} {α : Type} {m : Edit α} (enlarged : Enlarges admits g h)
      (addition : Addition admits m) : Enlarges admits g (m.after h)

theorem Enlarges.constructs (enlarged : Enlarges admits g h) : Constructs admits g h := by
  induction enlarged with
  | refl => exact .refl
  | add _ addition ih =>
      rcases addition with creation | admitted
      · exact .edit ih (.create creation)
      · exact .edit ih (.addDetached admitted)

/-- A node that is inserted refers to nodes that were there before. -/
theorem RefersBack.insert (refersBack : RefersBack g h) (hfit : h.SlotsFit node) :
    RefersBack g (h.insert node) := by
  intro x found d hx hfound halive hheld
  rw [node?_insert] at hfound
  split at hfound
  · next he =>
    cases hfound
    rw [← he]
    exact hfit.lt_size hheld
  · exact refersBack x found d hx hfound halive hheld

/-- A detached node does not count. -/
theorem RefersBack.allocate (refersBack : RefersBack g h) (hdead : node.isAlive = false) :
    RefersBack g (h.allocate node) := by
  intro x found d hx hfound halive hheld
  rw [node?_allocate] at hfound
  split at hfound
  · cases hfound
    rw [hdead] at halive
    cases halive
  · exact refersBack x found d hx hfound halive hheld

/-- What is added refers back. -/
theorem Enlarges.refersBack (enlarged : Enlarges admits g h) : RefersBack g h := by
  induction enlarged with
  | refl =>
      intro x node d hx hnode
      exact absurd (lt_size_of_node? hnode) (Nat.not_lt.mpr hx)
  | @add h _ _ _ addition ih =>
      rcases addition with creation | admitted
      · rcases creation.inserts h with hsame | ⟨node, hfit, hinsert⟩
        · rw [hsame]
          exact ih
        · rw [hinsert]
          exact ih.insert hfit
      · exact ih.allocate rfl

/-- **The old graph after what refers back was taken back**: its nodes and usage lists are as they
were. -/
theorem RefersBack.discardSince_old (refersBack : RefersBack g h) (extends' : Extends g h)
    (wf : g.WellFormed) (wf' : h.WellFormed) (hx : x.index < g.size) :
    (h.discardSince g.size).node? x = g.node? x ∧
      (h.discardSince g.size).usages x = g.usages x := by
  have hextends := extends'.discardSince wf.fresh extends'.size_le (Nat.le_refl _)
  refine ⟨hextends.old hx, hextends.usages_eq wf (wellFormed_discardSince wf' _) ?_ x⟩
  exact refersBack.isAlive_discardSince extends' wf wf' extends'.size_le (Nat.le_refl _)

/-! ## Replacements by the node itself -/

/-- The replacement of `id` names `id` itself as the target of a role in which it is used. -/
def Reinstates (g : Graph) (id : NodeId) (r : Replacement) : Prop :=
  ∃ type ∈ g.usedRoles id, r.target type = some id

instance : Decidable (g.Reinstates id r) :=
  inferInstanceAs (Decidable (∃ type ∈ g.usedRoles id, r.target type = some id))

/-- In an accepted replacement a target serves in every used role. -/
theorem serves_of_checkReplacement {killed : Option Checkpoint}
    (hcheck : g.checkReplacement id killed r = .ok ()) {type : InputType}
    (hused : type ∈ g.usedRoles id) :
    ∃ target, r.target type = some target ∧ g.Serves target type := by
  obtain ⟨site, hsite, rfl⟩ := mem_usedRoles.mp hused
  exact (checkReplacement_eq_ok_iff.mp hcheck).1 site hsite

/-- If the replacement does not reinstate the node, the target is another node. -/
theorem exists_target_of_not_reinstates {killed : Option Checkpoint}
    (hcheck : g.checkReplacement id killed r = .ok ()) (hnot : ¬ g.Reinstates id r)
    {type : InputType} (hused : type ∈ g.usedRoles id) :
    ∃ target, r.target type = some target ∧ target ≠ id ∧ g.Serves target type := by
  obtain ⟨target, htarget, hserves⟩ := serves_of_checkReplacement hcheck hused
  refine ⟨target, htarget, ?_, hserves⟩
  rintro rfl
  exact hnot ⟨type, hused, htarget⟩

/-- A node that takes over its own usages is in use afterwards. -/
theorem Balanced.usages_ne_nil_of_reroute (b : g.Balanced) (b' : g'.Balanced)
    (hfind : ∀ x, g'.node? x = (g.node? x).map (Node.redirect (reroute id r)))
    (reinstates : g.Reinstates id r) : g'.usages id ≠ [] := by
  obtain ⟨type, hused, htarget⟩ := reinstates
  obtain ⟨⟨user, slot, info⟩, hsite, rfl⟩ := mem_usedRoles.mp hused
  obtain ⟨node, hnode, halive, -, hinput, hinfo⟩ := b.mem_usageSites_iff.mp hsite
  have hinput' : (node.redirect (reroute id r)).input slot = some id := by
    rw [Node.redirect_of_isAlive halive, Node.input_rename_of_slotInfo hinfo, hinput,
      Option.map_some, reroute, if_pos rfl, htarget]
    rfl
  have hnode' : g'.node? user = some (node.redirect (reroute id r)) := by
    rw [hfind, hnode, Option.map_some]
  have huser : user ∈ g'.usages id := b'.mem_usages_iff.mpr
    ⟨_, hnode', node.isAlive_redirect _ ▸ halive, mem_slots_iff.mpr ⟨slot, hinput'⟩⟩
  exact List.ne_nil_of_mem huser

/-- A node that is in use is not given up. -/
theorem run_retire_of_used (halive : g.isAlive id = true) (hused : g.usages id ≠ []) :
    (retire id).run g = .error (.violation (.danglingUsages id (g.usageCount id))) g := by
  obtain ⟨node, hnode⟩ := isAlive_iff_exists.mp halive
  have hcheck : g.checkRetire id = .error (.danglingUsages id (g.usageCount id)) := by
    have hcount : g.usageCount id ≠ 0 := fun h => hused (List.length_eq_zero_iff.mp h)
    rw [checkRetire, requireAlive_eq_ok_iff.mpr hnode]
    show g.checkUnused id = _
    rw [checkUnused, if_neg hcount]
    rfl
  rw [run_retire, hcheck]

/-- **Substitution fails half-way** when a node is to take over its own usages: all usages were
moved to the targets of their roles, and nothing else was done. -/
theorem Balanced.run_substitute_of_reinstates (b : g.Balanced) (hid : g.isAlive id = true)
    (hserves : ∀ type ∈ g.usedRoles id, ∃ target, r.target type = some target ∧
      g.Serves target type)
    (reinstates : g.Reinstates id r) :
    ∃ g', (substitute id r).run g =
        .error (.violation (.danglingUsages id (g'.usageCount id))) g' ∧
      ∀ x, g'.node? x = (g.node? x).map (Node.redirect (reroute id r)) := by
  obtain ⟨g', hmove, b', -, hfind⟩ := b.run_moveUsages_usedRoles hid hserves
  have halive : g'.isAlive id = true := by
    rw [isAlive, hfind, Option.any_map]
    simpa [isAlive, Function.comp_def] using hid
  have hretire := run_retire_of_used halive (b.usages_ne_nil_of_reroute b' hfind reinstates)
  refine ⟨g', ?_, hfind⟩
  rw [substitute, Edit.run_get_bind, run_bind_of_ok hmove, run_bind_of_error hretire]

/-! ## The outcome -/

section Accepted

variable {σ : Type} {tool : LoweringTool σ} {memory memory' : σ}

/-- An accepted replacement that does not reinstate the node goes through. -/
theorem Balanced.run_lowerNode_of_not_reinstates (b : h.Balanced)
    (hid : g.isLowerable id = true) (halive : h.isAlive id = true)
    (hrun : (tool id).run (g, memory) = .ok r (h, memory'))
    (hcheck : h.checkReplacement id (g.checkpoint? id) r = .ok ()) (hnot : ¬ h.Reinstates id r) :
    ∃ g', (lowerNode tool id).run (g, memory) = .ok r (g', memory') ∧
      g'.state? id = some .replaced := by
  obtain ⟨node, hnode, hnodeAlive⟩ := isAlive_iff_exists.mp halive
  obtain ⟨g', hsubstitute, -, -, hfind⟩ := b.run_substitute hnode hnodeAlive
    fun type htype => exists_target_of_not_reinstates hcheck hnot htype
  refine ⟨g', run_lowerNode_of_ok (requireLowerable_of_isLowerable hid) hrun hcheck hsubstitute, ?_⟩
  rw [state?, hfind, if_pos rfl]
  rfl

/-- An accepted replacement that reinstates the node fails when the usages were moved. -/
theorem Balanced.run_lowerNode_of_reinstates (b : h.Balanced)
    (hid : g.isLowerable id = true) (halive : h.isAlive id = true)
    (hrun : (tool id).run (g, memory) = .ok r (h, memory'))
    (hcheck : h.checkReplacement id (g.checkpoint? id) r = .ok ())
    (reinstates : h.Reinstates id r) :
    ∃ g', (lowerNode tool id).run (g, memory) =
        .error (.violation (.danglingUsages id (g'.usageCount id))) (g', memory') ∧
      ∀ x, g'.node? x = (h.node? x).map (Node.redirect (reroute id r)) := by
  obtain ⟨g', hsubstitute, hfind⟩ := b.run_substitute_of_reinstates halive
    (fun type htype => serves_of_checkReplacement hcheck htype) reinstates
  refine ⟨g', ?_, hfind⟩
  rw [run_lowerNode_eq tool (requireLowerable_of_isLowerable hid), hrun]
  dsimp only
  rw [hcheck]
  dsimp only
  rw [hsubstitute]

/-- An accepted replacement with which lowering fails reinstates the node, and the usages were
moved. -/
theorem Balanced.reinstates_of_run_error (b : h.Balanced) (hid : g.isLowerable id = true)
    (halive : h.isAlive id = true) (hrun : (tool id).run (g, memory) = .ok r (h, memory'))
    (hcheck : h.checkReplacement id (g.checkpoint? id) r = .ok ()) {e : Fault} {memory'' : σ}
    (hlower : (lowerNode tool id).run (g, memory) = .error e (g', memory'')) :
    h.Reinstates id r ∧ ∀ x, g'.node? x = (h.node? x).map (Node.redirect (reroute id r)) := by
  have reinstates : h.Reinstates id r := Classical.not_not.mp fun hnot => by
    obtain ⟨_, hok, -⟩ := b.run_lowerNode_of_not_reinstates hid halive hrun hcheck hnot
    cases hlower.symm.trans hok
  obtain ⟨_, hfails, hfind⟩ := b.run_lowerNode_of_reinstates hid halive hrun hcheck reinstates
  cases hlower.symm.trans hfails
  exact ⟨reinstates, hfind⟩

/-- When lowering fails, what the tool has done was taken back, or its replacement was accepted. -/
theorem discarded_or_accepted {v : Violation} {g' : Graph} (hid : g.isLowerable id = true)
    (hlower : (lowerNode tool id).run (g, memory) = .error (.violation v) (g', memory')) :
    g' = ((tool id).after g memory).discardSince g.size ∨
      ∃ r h, (tool id).run (g, memory) = .ok r (h, memory') ∧
        h.checkReplacement id (g.checkpoint? id) r = .ok () := by
  rw [run_lowerNode_eq tool (requireLowerable_of_isLowerable hid)] at hlower
  unfold ToolM.after
  rcases hrun : (tool id).run (g, memory) with ⟨r, h, memory₁⟩ | ⟨v₁ | _, h, memory₁⟩
  · rw [hrun] at hlower
    dsimp only at hlower ⊢
    rcases hcheck : h.checkReplacement id (g.checkpoint? id) r with v₁ | _
    · rw [hcheck] at hlower
      cases hlower
      exact .inl rfl
    · rw [hcheck] at hlower
      dsimp only at hlower
      rcases hsubstitute : (substitute id r).run h with ⟨_, g₁⟩ | ⟨e, g₁⟩
      · rw [hsubstitute] at hlower
        cases hlower
      · rw [hsubstitute] at hlower
        cases hlower
        exact .inr ⟨r, h, rfl, hcheck⟩
  · rw [hrun] at hlower
    cases hlower
    exact .inl rfl
  · rw [hrun] at hlower
    cases hlower

/-- **An accepted replacement goes through if and only if it does not reinstate the node.**  In a
graph that a run leads to, let an attached access be lowered by a tool that only adds nodes.

* When the replacement that the tool answers is accepted, then lowering succeeds and the node is
  replaced, or else the replacement names the node itself as the target of a role in which it is
  used.
* When lowering fails, then the old nodes and their usage lists are as they were; or else the
  replacement was accepted and names the node itself, and the usages were moved to the targets of
  their roles. -/
theorem Reachable.lowerNode_replaces_iff (reachable : g.Reachable) (hid : g.isLowerable id = true)
    (enlarged : Enlarges Node.Built g ((tool id).after g memory)) :
    (∀ r h memory', (tool id).run (g, memory) = .ok r (h, memory') →
      h.checkReplacement id (g.checkpoint? id) r = .ok () →
      ((∃ g', (lowerNode tool id).run (g, memory) = .ok r (g', memory') ∧
          g'.state? id = some .replaced) ↔
        ¬ h.Reinstates id r)) ∧
    ∀ v g' memory', (lowerNode tool id).run (g, memory) = .error (.violation v) (g', memory') →
      (∀ x : NodeId, x.index < g.size → g'.node? x = g.node? x ∧ g'.usages x = g.usages x) ∨
      ∃ r h, (tool id).run (g, memory) = .ok r (h, memory') ∧
        h.checkReplacement id (g.checkpoint? id) r = .ok () ∧ h.Reinstates id r ∧
        ∀ x, g'.node? x = (h.node? x).map (Node.redirect (reroute id r)) := by
  have wf := reachable.wellFormed
  have built : ∀ node : Node, node.Built → node.Built := fun _ hnode => hnode
  have wf' := enlarged.constructs.wellFormed built wf
  have extends' := enlarged.constructs.extends built wf
  have halive : ((tool id).after g memory).isAlive id = true := by
    obtain ⟨node, hnode, hnodeAlive, -⟩ := isLowerable_iff.mp hid
    refine isAlive_iff_exists.mpr ⟨node, ?_, hnodeAlive⟩
    rw [extends'.old (lt_size_of_node? hnode), hnode]
  have hafter : ∀ {r h memory'}, (tool id).run (g, memory) = .ok r (h, memory') →
      (tool id).after g memory = h := fun hrun => by rw [ToolM.after, hrun]
  refine ⟨fun r h memory' hrun hcheck => ⟨?_, ?_⟩, fun v g' memory' hlower => ?_⟩
  · rintro ⟨g', hlower, -⟩ reinstates
    rw [hafter hrun] at wf' halive
    obtain ⟨_, hfails, -⟩ := wf'.run_lowerNode_of_reinstates hid halive hrun hcheck reinstates
    cases hlower.symm.trans hfails
  · rw [hafter hrun] at wf' halive
    exact wf'.run_lowerNode_of_not_reinstates hid halive hrun hcheck
  · rcases discarded_or_accepted hid hlower with rfl | ⟨r, h, hrun, hcheck⟩
    · exact .inl fun x hx => enlarged.refersBack.discardSince_old extends' wf wf' hx
    · rw [hafter hrun] at wf' halive
      -- it did not go through, and so it reinstates the node
      obtain ⟨reinstates, hfind⟩ := wf'.reinstates_of_run_error hid halive hrun hcheck hlower
      exact .inr ⟨r, h, hrun, hcheck, reinstates, hfind⟩

end Accepted

/-- A tool that stores the operand of `storeThenLoad` and has the location depend on the store.
Control continues from the store, or else from the node that is lowered. -/
def storeOnly (keepsControl : Bool) : LoweringTool Unit := .ofEdit fun id => do
  let store ← add (.withInputs (.rawStore ⟨LocationUniverse.anyId, .int, .plain⟩) .void
    [some ⟨0⟩, some ⟨3⟩, some ⟨4⟩])
  let control := if keepsControl then id else store
  return { control := some control, memory := some store, nodes := [store] }

/-- The tool adds the store, and does nothing else. -/
theorem enlarges_storeOnly (keepsControl : Bool) (id : NodeId) (g : Graph) (memory : Unit) :
    Enlarges Node.Built g ((storeOnly keepsControl id).after g memory) := by
  let store : Node := .withInputs (.rawStore ⟨LocationUniverse.anyId, .int, .plain⟩) .void
    [some ⟨0⟩, some ⟨3⟩, some ⟨4⟩]
  have hafter : (storeOnly keepsControl id).after g memory = (add store).after g := by
    unfold ToolM.after Edit.after storeOnly LoweringTool.ofEdit
    simp only [EStateM.run, Edit.inTool, bind, EStateM.bind, pure, EStateM.pure, store]
    cases add _ g <;> rfl
  rw [hafter]
  exact .add .refl (.create (.add (Node.built_withInputs _ _ _)))

/-- The graph that the tool leaves. -/
def storeBeside : Graph :=
  (add (.withInputs (.rawStore ⟨LocationUniverse.anyId, .int, .plain⟩) .void
    [some ⟨0⟩, some ⟨3⟩, some ⟨4⟩])).after storeThenLoad

theorem enlarges_storeBeside : Enlarges Node.Built storeThenLoad storeBeside :=
  enlarges_storeOnly false ⟨5⟩ storeThenLoad ()

/-- With control from the store the lowering of the write succeeds. -/
theorem exists_run_lowerNode_storeOnly :
    ∃ g', (lowerNode (storeOnly false) ⟨5⟩).run (storeThenLoad, ()) =
      .ok { control := some ⟨8⟩, memory := some ⟨8⟩, nodes := [⟨8⟩] } (g', ()) := by
  have hid : storeThenLoad.isLowerable ⟨5⟩ = true := by decide +kernel
  have hrun : (storeOnly false ⟨5⟩).run (storeThenLoad, ()) =
      .ok { control := some ⟨8⟩, memory := some ⟨8⟩, nodes := [⟨8⟩] } (storeBeside, ()) := rfl
  have wf := enlarges_storeBeside.constructs.wellFormed (fun _ h => h)
    reachable_storeThenLoad.wellFormed
  obtain ⟨g', hlower, -⟩ := wf.run_lowerNode_of_not_reinstates hid (by decide +kernel) hrun
    (by decide +kernel) (by decide +kernel)
  exact ⟨g', hlower⟩

/-- With control from the store the write is replaced. -/
theorem lowerNode_replaces_storeOnly :
    ∃ g', (lowerNode (storeOnly false) ⟨5⟩).run (storeThenLoad, ()) =
        .ok { control := some ⟨8⟩, memory := some ⟨8⟩, nodes := [⟨8⟩] } (g', ()) ∧
      g'.state? ⟨5⟩ = some .replaced := by
  have enlarged : Enlarges Node.Built storeThenLoad
      ((storeOnly false ⟨5⟩).after storeThenLoad ()) := enlarges_storeBeside
  have outcome := Reachable.lowerNode_replaces_iff reachable_storeThenLoad
    (by decide +kernel) enlarged
  exact (outcome.1 _ storeBeside () rfl (by decide +kernel)).mpr (by decide +kernel)

/-- With control from the write itself the replacement is accepted, and lowering fails nevertheless.
The load depends on the new store then. -/
theorem lowerNode_fails_storeOnly :
    storeThenLoad.Reachable ∧ storeThenLoad.isLowerable ⟨5⟩ = true ∧
      Enlarges Node.Built storeThenLoad storeBeside ∧
      ∃ r, (storeOnly true ⟨5⟩).run (storeThenLoad, ()) = .ok r (storeBeside, ()) ∧
        storeBeside.checkReplacement ⟨5⟩ (storeThenLoad.checkpoint? ⟨5⟩) r = .ok () ∧
        ∃ v g', (lowerNode (storeOnly true) ⟨5⟩).run (storeThenLoad, ()) =
            .error (.violation v) (g', ()) ∧
          storeThenLoad.input ⟨6⟩ 3 = some ⟨5⟩ ∧ g'.input ⟨6⟩ 3 = some ⟨8⟩ := by
  have hid : storeThenLoad.isLowerable ⟨5⟩ = true := by decide +kernel
  let r : Replacement := { control := some ⟨5⟩, memory := some ⟨8⟩, nodes := [⟨8⟩] }
  have hrun : (storeOnly true ⟨5⟩).run (storeThenLoad, ()) = .ok r (storeBeside, ()) := rfl
  have hcheck : storeBeside.checkReplacement ⟨5⟩ (storeThenLoad.checkpoint? ⟨5⟩) r = .ok () := by
    decide +kernel
  have wf := enlarges_storeBeside.constructs.wellFormed (fun _ h => h)
    reachable_storeThenLoad.wellFormed
  obtain ⟨g', hlower, hfind⟩ := wf.run_lowerNode_of_reinstates hid (by decide +kernel) hrun hcheck
    (by decide +kernel)
  refine ⟨reachable_storeThenLoad, hid, enlarges_storeBeside, r, hrun, hcheck, _, g', hlower,
    by decide +kernel, ?_⟩
  rw [input, hfind]
  decide +kernel

end Graph

end SeaOfNodes
