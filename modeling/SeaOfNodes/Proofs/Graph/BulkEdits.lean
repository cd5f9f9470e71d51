import SeaOfNodes.Proofs.Graph.Verify

/-!
# Bulk edits are exact

A bulk edit moves the usages of a node to another one, all of them or those of one role.  It does
not search the nodes for slots: it looks the users up and goes through theirs.  So a slot that the
usage lists do not know of would stay behind, and one that they report twice would be moved twice.

`Graph.Lists` says of a list of slots that it is exactly what an edit should move, and `Graph.Moved`
what it should make of them: the slots hold the new target, each takes its entry in the usage lists
with it, and nothing else changes.  **`Reaches.bulk_edits_exact`** says of both edits when they
succeed, and that they do no more and no less than this.

### What is load-bearing

Moving a slot removes *the first* entry of its user from a usage list, whichever slot that entry was
made for.  This does no harm, as the entries of one user are alike: only their number matters, and
it is compared for every pair of nodes (`Balanced.count_usages_relinkAll`).  That a user holds the
node in slots of several roles, that the node holds itself, or that the new target holds it, is
therefore no case of its own.

The users of a node are attached.  A node that is still detached may hold it as well, but is not
looked at (`not_moved_returnLater`).
-/

namespace SeaOfNodes

namespace Graph

variable {admits : Node → Prop} {g g' : Graph} {old : NodeId} {target : Option NodeId}
  {sites : List UseSite}

/-- The list has the slots of attached nodes that hold `old` in one of the roles, each once. -/
structure Lists (g : Graph) (roles : InputType → Bool) (old : NodeId) (sites : List UseSite) :
    Prop where
  /-- No slot is listed twice. -/
  nodup : sites.Nodup
  /-- The slots that hold `old` in one of the roles are listed, and no others. -/
  mem_iff : ∀ site, site ∈ sites ↔ g.Holds site (some old) ∧ roles site.info.inputType = true

/-- **What becomes of a graph when slots are moved** from `old` to `target`. -/
structure Moved (g : Graph) (sites : List UseSite) (old : NodeId) (target : Option NodeId)
    (g' : Graph) : Prop where
  /-- The slots hold the target. -/
  filled : ∀ site ∈ sites, g'.input site.user site.slot = target
  /-- Every other slot holds what it held. -/
  unmoved : ∀ x slot, (∀ site ∈ sites, site.user = x → site.slot ≠ slot) →
    g'.input x slot = g.input x slot
  /-- Apart from what its slots hold, a node does not change. -/
  kept : ∀ {x node}, g.node? x = some node → ∃ slots : List (Option NodeId),
    slots.length = node.slots.length ∧ g'.node? x = some { node with slots := slots }
  /-- For each slot the list of `old` loses an entry, and that of the target gets one. -/
  entries : ∀ d, (g'.usages d ++ if old = d then sites.map UseSite.user else []).Perm
    (g.usages d ++ if target = some d then sites.map UseSite.user else [])
  /-- The usage lists of other nodes do not change. -/
  others : ∀ d, old ≠ d → target ≠ some d → g'.usages d = g.usages d
  /-- No node is new, and nothing else has changed. -/
  frame : SameFrame g g'

/-! ## Moving slots -/

/-- What the usage lists report is exactly what is to be moved. -/
theorem Balanced.lists_usageSites (b : g.Balanced) (roles : InputType → Bool) (old : NodeId) :
    g.Lists roles old ((g.usageSites old).filter fun site => roles site.info.inputType) where
  nodup := by
    refine ((g.usageSites_distinct old).imp ?_).filter _
    rintro a _ hapart rfl
    exact hapart.elim (· rfl) (· rfl)
  mem_iff site := by rw [List.mem_filter, b.mem_usageSites_iff]

theorem Balanced.moved (b : g.Balanced) (movable : g.Movable sites (some old) target) :
    Moved g sites old target (g.relinkAll sites (some old) target) where
  filled site hsite := by
    rw [input_relinkAll movable.holds, if_pos ⟨site, hsite, rfl, rfl⟩]
  unmoved x slot hother := by
    rw [input_relinkAll movable.holds, if_neg]
    rintro ⟨site, hsite, huser, hslot⟩
    exact hother site hsite huser hslot
  kept {x node} hnode := by
    refine ⟨refill x target sites node.slots, length_refill .., ?_⟩
    rw [node?_relinkAll, hnode, Option.map_some]
  entries d := by
    rw [List.perm_iff_count]
    intro x
    have hcount := b.count_usages_relinkAll movable d x
    rw [List.count_append, List.count_append]
    rwa [apply_ite (List.count x), apply_ite (List.count x), List.count_nil]
  others d hold hnew := usages_relinkAll_of_ne (fun he => hold (Option.some.inj he)) hnew
  frame := sameFrame_relinkAll ..

/-- What an attached node holds is in a slot that is described. -/
theorem Balanced.exists_holds (b : g.Balanced) {x : NodeId} {node : Node} {slot : Nat}
    (hnode : g.node? x = some node) (halive : node.isAlive = true)
    (hinput : node.input slot = some old) : ∃ info, g.Holds ⟨x, slot, info⟩ (some old) := by
  obtain ⟨info, hinfo, -⟩ := b.serves_of_input hnode halive hinput
  exact ⟨info, node, hnode, halive, lt_length_of_input hinput, hinput, hinfo⟩

/-! ## When the edits succeed -/

theorem run_replaceAtUsages_eq_ok_iff {target : NodeId} :
    (replaceAtUsages old target).run g = .ok () g' ↔
      ∃ sites, g.checkReplaceAtUsages old target = .ok sites ∧
        g.relinkAll sites (some old) (some target) = g' := by
  rw [run_replaceAtUsages]
  cases g.checkReplaceAtUsages old target <;> simp

theorem run_replaceAtUsagesOfType_eq_ok_iff {type : InputType} {n : Nat} :
    (replaceAtUsagesOfType old type target).run g = .ok n g' ↔
      ∃ sites, g.checkReplaceAtUsagesOfType old type target = .ok sites ∧ sites.length = n ∧
        g.relinkAll sites (some old) target = g' := by
  rw [run_replaceAtUsagesOfType]
  cases g.checkReplaceAtUsagesOfType old type target <;> simp

/-- All usages can be moved if the new target serves in the role of each of them. -/
theorem Balanced.exists_replaceAtUsages_iff (b : g.Balanced) {target : NodeId} :
    (∃ g', (replaceAtUsages old target).run g = .ok () g') ↔
      g.isAlive old = true ∧ g.isAlive target = true ∧
        ∀ site, g.Holds site (some old) → g.allowsUsage target site.info.inputType = true := by
  simp only [run_replaceAtUsages_eq_ok_iff, checkReplaceAtUsages_eq_ok_iff, serves_iff]
  constructor
  · rintro ⟨_, _, ⟨hold, rfl, htarget, hserves⟩, -⟩
    exact ⟨hold, htarget, fun site h => (hserves site (b.mem_usageSites_iff.mpr h)).2⟩
  · rintro ⟨hold, htarget, hallows⟩
    exact ⟨_, _, ⟨hold, rfl, htarget,
      fun site h => ⟨htarget, hallows site (b.mem_usageSites_iff.mp h)⟩⟩, rfl⟩

/-- The usages of one role can be moved if the new target fits each of them. -/
theorem Balanced.exists_replaceAtUsagesOfType_iff (b : g.Balanced) {type : InputType} :
    (∃ n g', (replaceAtUsagesOfType old type target).run g = .ok n g') ↔
      g.isAlive old = true ∧ ∀ site, g.Holds site (some old) → site.info.inputType = type →
        g.Fits site.info target := by
  simp only [run_replaceAtUsagesOfType_eq_ok_iff, checkReplaceAtUsagesOfType_eq_ok_iff,
    checkSites_eq_ok_iff]
  constructor
  · rintro ⟨_, _, _, ⟨hold, rfl, hfits⟩, -⟩
    refine ⟨hold, fun site h htype => (hfits site ?_).2⟩
    exact List.mem_filter.mpr ⟨b.mem_usageSites_iff.mpr h, decide_eq_true htype⟩
  · rintro ⟨hold, hfits⟩
    refine ⟨_, _, _, ⟨hold, rfl, fun site hsite => ?_⟩, rfl, rfl⟩
    obtain ⟨hmem, htype⟩ := List.mem_filter.mp hsite
    have h := b.mem_usageSites_iff.mp hmem
    obtain ⟨user, huser, -⟩ := h
    exact ⟨⟨user, huser⟩, hfits site (b.mem_usageSites_iff.mp hmem) (of_decide_eq_true htype)⟩

/-! ## Usages after a move -/

theorem Moved.isAlive (moved : Moved g sites old target g') {x : NodeId}
    (h : g.isAlive x = true) : g'.isAlive x = true := by
  obtain ⟨node, hnode, halive⟩ := isAlive_iff_exists.mp h
  obtain ⟨slots, -, hnode'⟩ := moved.kept hnode
  exact isAlive_iff_exists.mpr ⟨_, hnode', halive⟩

/-- What is left of the usages of `old` are those in other roles. -/
theorem Balanced.usages_of_moved (b : g.Balanced) (roles : InputType → Bool)
    (moved : Moved g ((g.usageSites old).filter fun site => roles site.info.inputType) old target
      g') (hne : target ≠ some old) :
    (g'.usages old).Perm
      (((g.usageSites old).filter fun site => !roles site.info.inputType).map UseSite.user) := by
  have hentries := moved.entries old
  rw [if_pos rfl, if_neg hne, List.append_nil] at hentries
  have hparts := (List.filter_append_perm (fun site : UseSite => roles site.info.inputType)
    (g.usageSites old)).map UseSite.user
  rw [List.map_append] at hparts
  have husages := hentries.trans ((b.usageSites_perm old).symm.trans hparts.symm)
  exact (List.perm_append_right_iff _).mp (husages.trans List.perm_append_comm)

/-- A node without usages can be deleted. -/
theorem exists_delete (halive : g.isAlive old = true) (hunused : g.usages old = []) :
    ∃ g', (delete old).run g = .ok () g' := by
  obtain ⟨node, hnode, hnodeAlive⟩ := isAlive_iff_exists.mp halive
  refine ⟨g.bury old .deleted, Edit.run_ask_bind_eq_ok_iff.mpr ⟨(), ?_, rfl⟩⟩
  rw [checkDelete_eq_ok_iff]
  exact ⟨node, hnode, .inr ⟨(NodeState.isAlive_iff _).mp hnodeAlive, hunused⟩⟩

/-! ## Exactness -/

/-- **All usages are moved.** -/
theorem Balanced.replaceAtUsages_exact (b : g.Balanced) {target : NodeId}
    (hrun : (replaceAtUsages old target).run g = .ok () g') (hne : old ≠ target) :
    (∀ x slot, g.isAlive x = true → g.input x slot = some old →
      g'.input x slot = some target) ∧
    (∀ x slot, (g.isAlive x = true → g.input x slot ≠ some old) →
      g'.input x slot = g.input x slot) ∧
    g'.usages old = [] ∧ (∃ g'', (delete old).run g' = .ok () g'') ∧
    (g'.usages target).Perm (g.usages target ++ g.usages old) := by
  obtain ⟨sites, hcheck, rfl⟩ := run_replaceAtUsages_eq_ok_iff.mp hrun
  have moved := b.moved (b.movable_of_checkReplaceAtUsages hcheck)
  obtain ⟨hold, rfl, -, -⟩ := checkReplaceAtUsages_eq_ok_iff.mp hcheck
  have hsites : ((g.usageSites old).filter fun _ => true) = g.usageSites old :=
    List.filter_eq_self.mpr fun _ _ => rfl
  have hunused : (g.relinkAll (g.usageSites old) (some old) (some target)).usages old = [] := by
    have hleft := b.usages_of_moved (fun _ => true) (by rwa [hsites])
      fun he => hne (Option.some.inj he).symm
    have hnone : ((g.usageSites old).filter fun _ => !true) = [] :=
      List.filter_eq_nil_iff.mpr fun _ _ => nofun
    rw [hnone] at hleft
    exact hleft.eq_nil
  refine ⟨fun x slot halive hinput => ?_, fun x slot hother => ?_, hunused,
    exists_delete (moved.isAlive hold) hunused, ?_⟩
  · obtain ⟨node, hnode, hnodeAlive⟩ := isAlive_iff_exists.mp halive
    rw [input, hnode, Option.bind_some] at hinput
    obtain ⟨info, hholds⟩ := b.exists_holds hnode hnodeAlive hinput
    exact moved.filled _ (b.mem_usageSites_iff.mpr hholds)
  · refine moved.unmoved x slot fun site hsite huser hslot => ?_
    obtain ⟨node, hnode, hnodeAlive, -, hinput, -⟩ := b.mem_usageSites_iff.mp hsite
    subst huser hslot
    refine hother (isAlive_iff_exists.mpr ⟨node, hnode, hnodeAlive⟩) ?_
    rw [input, hnode]
    exact hinput
  · have hentries := moved.entries target
    rw [if_neg hne, if_pos rfl, List.append_nil] at hentries
    exact hentries.trans ((b.usageSites_perm old).append_left _)

/-- **The usages of one role are moved**, and those of other roles are left. -/
theorem Balanced.replaceAtUsagesOfType_exact (b : g.Balanced) {type : InputType} {n : Nat}
    (hrun : (replaceAtUsagesOfType old type target).run g = .ok n g') :
    ∃ sites rest, g.Lists (fun role => role = type) old sites ∧
      g.Lists (fun role => role ≠ type) old rest ∧ n = sites.length ∧
      Moved g sites old target g' ∧
      (target ≠ some old → (g'.usages old).Perm (rest.map UseSite.user)) := by
  obtain ⟨sites, hcheck, rfl, rfl⟩ := run_replaceAtUsagesOfType_eq_ok_iff.mp hrun
  have moved := b.moved (b.movable_of_checkReplaceAtUsagesOfType hcheck)
  obtain ⟨-, rfl, -⟩ := checkReplaceAtUsagesOfType_eq_ok_iff.mp hcheck
  refine ⟨_, _, b.lists_usageSites (fun role => role = type) old,
    b.lists_usageSites (fun role => role ≠ type) old, rfl, moved, fun hne => ?_⟩
  simpa using b.usages_of_moved (fun role => role = type) moved hne

/-- **Bulk edits are exact.**  In every graph that a run leads to:

* all usages of a node can be moved if and only if it and the target are attached and the target
  allows the role of every slot that holds the node;
* when they were moved to another node, every slot of an attached node that held the old one holds
  the target, every other slot what it held, the old one is in no use and can be deleted, and the
  target has gained its usages;
* the usages of one role can be moved if and only if the target fits each of their slots, so that
  they can be emptied only if all of them are optional;
* when they were moved, these slots were changed and no others, each once, and the answer is their
  number; the usages that are left are those of the other roles. -/
theorem Reaches.bulk_edits_exact (reached : Reaches admits new g) (old : NodeId) :
    (∀ target : NodeId,
      ((∃ g', (replaceAtUsages old target).run g = .ok () g') ↔
        g.isAlive old = true ∧ g.isAlive target = true ∧
          ∀ site, g.Holds site (some old) → g.allowsUsage target site.info.inputType = true) ∧
      ∀ g', (replaceAtUsages old target).run g = .ok () g' → old ≠ target →
        (∀ x slot, g.isAlive x = true → g.input x slot = some old →
          g'.input x slot = some target) ∧
        (∀ x slot, (g.isAlive x = true → g.input x slot ≠ some old) →
          g'.input x slot = g.input x slot) ∧
        g'.usages old = [] ∧ (∃ g'', (delete old).run g' = .ok () g'') ∧
        (g'.usages target).Perm (g.usages target ++ g.usages old)) ∧
    ∀ (type : InputType) (target : Option NodeId),
      ((∃ n g', (replaceAtUsagesOfType old type target).run g = .ok n g') ↔
        g.isAlive old = true ∧ ∀ site, g.Holds site (some old) → site.info.inputType = type →
          g.Fits site.info target) ∧
      ∀ n g', (replaceAtUsagesOfType old type target).run g = .ok n g' →
        (∃ sites rest, g.Lists (fun role => role = type) old sites ∧
          g.Lists (fun role => role ≠ type) old rest ∧ n = sites.length ∧
          Moved g sites old target g' ∧
          (target ≠ some old → (g'.usages old).Perm (rest.map UseSite.user))) ∧
        (target = none → ∀ site, g.Holds site (some old) → site.info.inputType = type →
          site.info.optional = true) := by
  have b := reached.balanced
  refine ⟨fun target => ⟨b.exists_replaceAtUsages_iff, fun g' hrun hne => ?_⟩,
    fun type target => ⟨b.exists_replaceAtUsagesOfType_iff, fun n g' hrun =>
      ⟨b.replaceAtUsagesOfType_exact hrun, ?_⟩⟩⟩
  · exact b.replaceAtUsages_exact hrun hne
  · rintro rfl
    exact (b.exists_replaceAtUsagesOfType_iff.mp ⟨n, g', hrun⟩).2

/-- The constant that is stored gives way to the offset.  The return holds the load as its control
predecessor and as its result; only the first is moved to the store, and the second is left. -/
theorem bulk_edits_exact_storeThenLoad :
    (∃ g', (replaceAtUsages ⟨4⟩ ⟨2⟩).run storeThenLoad = .ok () g' ∧
      g'.input ⟨5⟩ 2 = some ⟨2⟩ ∧ g'.usages ⟨4⟩ = [] ∧ (g'.usages ⟨2⟩).Perm [⟨3⟩, ⟨5⟩]) ∧
    ∃ g', (replaceAtUsagesOfType ⟨6⟩ .control (some ⟨5⟩)).run storeThenLoad = .ok 1 g' ∧
      g'.input ⟨7⟩ 0 = some ⟨5⟩ ∧ g'.input ⟨7⟩ 1 = some ⟨6⟩ := by
  have b := reachable_storeThenLoad.wellFormed.toBalanced
  constructor
  · obtain ⟨hiff, hexact⟩ := (Reaches.bulk_edits_exact reachable_storeThenLoad ⟨4⟩).1 ⟨2⟩
    have hsites : ∀ site ∈ storeThenLoad.usageSites ⟨4⟩,
        storeThenLoad.allowsUsage ⟨2⟩ site.info.inputType = true := by decide +kernel
    obtain ⟨g', hrun⟩ := hiff.mpr ⟨by decide +kernel, by decide +kernel,
      fun site hholds => hsites site (b.mem_usageSites_iff.mpr hholds)⟩
    obtain ⟨hfilled, -, hunused, -, husages⟩ := hexact g' hrun (by decide)
    have hbefore : storeThenLoad.usages ⟨2⟩ ++ storeThenLoad.usages ⟨4⟩ = [⟨3⟩, ⟨5⟩] := by
      decide +kernel
    rw [hbefore] at husages
    exact ⟨g', hrun, hfilled ⟨5⟩ 2 (by decide +kernel) (by decide +kernel), hunused, husages⟩
  · obtain ⟨hiff, hexact⟩ :=
      (Reaches.bulk_edits_exact reachable_storeThenLoad ⟨6⟩).2 .control (some ⟨5⟩)
    have hallows : storeThenLoad.Serves ⟨5⟩ .control := serves_iff.mpr (by decide +kernel)
    obtain ⟨n, g', hrun⟩ := hiff.mpr ⟨by decide +kernel, fun site _ hrole => by
      rw [Fits, hrole]
      exact hallows⟩
    obtain ⟨⟨sites, -, lists, -, rfl, moved, -⟩, -⟩ := hexact n g' hrun
    have hsites : storeThenLoad.usageSites ⟨6⟩ =
        [⟨⟨7⟩, 0, .control⟩, ⟨⟨7⟩, 1, .mayBeEmpty "result" .value⟩] := by decide +kernel
    have hmem : ∀ site, site ∈ sites ↔ site ∈ [(⟨⟨7⟩, 0, .control⟩ : UseSite)] := by
      intro site
      rw [lists.mem_iff, ← b.mem_usageSites_iff, hsites]
      constructor
      · rintro ⟨hsite, hrole⟩
        simp only [List.mem_cons, List.not_mem_nil, or_false] at hsite
        rcases hsite with rfl | rfl
        · exact List.mem_singleton_self _
        · cases hrole
      · intro hsite
        obtain rfl := List.mem_singleton.mp hsite
        exact ⟨List.mem_cons_self, rfl⟩
    have hn := ((List.perm_ext_iff_of_nodup lists.nodup (by simp)).mpr hmem).length_eq
    rw [hn] at hrun
    refine ⟨g', hrun, moved.filled _ ((hmem _).mpr List.mem_cons_self),
      moved.unmoved ⟨7⟩ 1 fun site hsite _ => ?_⟩
    rw [List.mem_singleton.mp ((hmem site).mp hsite)]
    decide

/-- `storeThenLoad` with a return that was not inserted; its result is the constant. -/
def returnLater : Graph :=
  (addDetached (.withInputs .ret .control [some ⟨6⟩, some ⟨4⟩])).after storeThenLoad

/-- The slots of a detached node are no edges.  All usages of the constant are moved, and the return
still holds it. -/
theorem not_moved_returnLater :
    returnLater.Reachable ∧ ∃ g', (replaceAtUsages ⟨4⟩ ⟨2⟩).run returnLater = .ok () g' ∧
      ¬ ∀ x slot, returnLater.input x slot = some ⟨4⟩ → g'.input x slot = some ⟨2⟩ := by
  have reached : returnLater.Reachable :=
    .edit reachable_storeThenLoad (.addDetached (Node.built_withInputs _ _ _))
  have b := reached.wellFormed.toBalanced
  have hsites : ∀ site ∈ returnLater.usageSites ⟨4⟩,
      returnLater.allowsUsage ⟨2⟩ site.info.inputType = true := by decide +kernel
  obtain ⟨g', hrun⟩ := b.exists_replaceAtUsages_iff.mpr ⟨by decide +kernel, by decide +kernel,
    fun site hholds => hsites site (b.mem_usageSites_iff.mpr hholds)⟩
  refine ⟨reached, g', hrun, fun hmoved => ?_⟩
  obtain ⟨sites, hcheck, rfl⟩ := run_replaceAtUsages_eq_ok_iff.mp hrun
  obtain ⟨-, hcollected, -⟩ := checkReplaceAtUsages_eq_ok_iff.mp hcheck
  rw [hcollected] at hmoved
  exact absurd (hmoved ⟨8⟩ 1 (by decide +kernel)) (by decide +kernel)

end Graph

end SeaOfNodes
