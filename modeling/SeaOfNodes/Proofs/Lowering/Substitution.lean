import SeaOfNodes.Proofs.Graph.Invariance
import SeaOfNodes.Proofs.Node.Rename

/-!
# Substitution is a renaming

Moving the usages of a node from role to role, and retiring the node afterwards, is one renaming
of what the attached nodes hold: `Graph.reroute` sends the node to the target of the role and
every other id to itself.  **`run_substitute`** says so, and that nothing fails on the way: when
every role in which the node is used has another node as its target that serves in it, then the
node is in no use after its usages were moved.
-/

namespace SeaOfNodes

/-- The mark that an expansion leaves on its nodes. -/
def Node.marked (node : Node) : Node := { node with flags := { node.flags with lowered := true } }

/-- What is left of a node that was replaced. -/
def Node.buried (node : Node) : Node := { node with slots := [], state := .replaced }

namespace Graph

variable {g : Graph} {id x : NodeId} {node : Node} {r : Replacement}

/-! ## Moving the usages of one role -/

/-- The renaming that moves the edges of one role from `old` to `new`. -/
def moveRole (type : InputType) (old new : NodeId) : Renaming :=
  fun t d => if t = type ∧ d = old then new else d

/-- What a slot of an attached node holds after the edges of one role were moved. -/
theorem input_moveRole (halive : node.isAlive = true) {slot : Nat} {info : SlotInfo}
    (hinfo : node.slotInfo slot = some info) (type : InputType) (old new : NodeId) :
    (node.redirect (moveRole type old new)).input slot =
      if info.inputType = type ∧ node.input slot = some old then some new
      else node.input slot := by
  rw [Node.redirect_of_isAlive halive, Node.input_rename_of_slotInfo hinfo]
  cases node.input slot with
  | none => simp
  | some d =>
      simp only [Option.map_some, moveRole, Option.some.injEq]
      split <;> rfl

/-- The slots of one role that hold a node are renamed when they are moved. -/
theorem node?_moveRole (b : g.Balanced) (type : InputType) (old new x : NodeId) :
    (g.relinkAll ((g.usageSites old).filter fun site => site.info.inputType = type) (some old)
        (some new)).node? x =
      (g.node? x).map (Node.redirect (moveRole type old new)) := by
  rw [node?_relinkAll]
  cases hx : g.node? x with
  | none => rfl
  | some node =>
      generalize hsites : ((g.usageSites old).filter fun site => site.info.inputType = type) = sites
      have hsite : ∀ slot, (∃ site ∈ sites, site.user = x ∧ site.slot = slot) ↔ _ :=
        fun slot => hsites ▸ b.exists_site_iff hx (fun role => role = type) slot
      refine congrArg some (Node.ext_input (by simp) (by simp) (by simp) (by simp) (by simp)
        (by simp) fun slot hslot => ?_)
      replace hslot : slot < node.slots.length := by simpa using hslot
      rw [input_refill node x (some new) sites hslot]
      -- only attached nodes have sites, and only they are redirected
      by_cases halive : node.isAlive = true
      · obtain ⟨info, hinfo, -⟩ := (b.placed hx).slotsFit halive slot hslot
        rw [input_moveRole halive hinfo]
        refine ite_congr (propext ((hsite slot).trans ⟨?_, ?_⟩)) (fun _ => rfl) fun _ => rfl
        · rintro ⟨-, hinput, found, hfound, htype⟩
          cases hinfo.symm.trans hfound
          exact ⟨of_decide_eq_true htype, hinput⟩
        · rintro ⟨htype, hinput⟩
          exact ⟨halive, hinput, info, hinfo, decide_eq_true htype⟩
      · rw [if_neg fun h => halive ((hsite slot).mp h).1, Node.redirect, if_neg halive]

/-! ## Moving all usages -/

/-- The renaming that moves the edges to `id` in the listed roles to their targets. -/
def retarget (id : NodeId) (r : Replacement) (types : List InputType) : Renaming :=
  fun t d => if d = id ∧ t ∈ types then (r.target t).getD id else d

theorem retarget_cons_of_none {type : InputType} (h : r.target type = none)
    (types : List InputType) : retarget id r (type :: types) = retarget id r types := by
  funext t d
  simp only [retarget, List.mem_cons]
  by_cases hd : d = id <;> by_cases ht : t = type <;> by_cases hmem : t ∈ types <;> simp_all

/-- The roles are moved one after the other. -/
theorem retarget_cons_of_some {type : InputType} {target : NodeId} (h : r.target type = some target)
    {types : List InputType} (hnew : type ∉ types) :
    retarget id r (type :: types) =
      fun t d => retarget id r types t (moveRole type id target t d) := by
  funext t d
  simp only [retarget, moveRole, List.mem_cons]
  by_cases ht : t = type
  · subst ht
    by_cases hd : d = id <;> simp [hd, hnew, h]
  · by_cases hd : d = id <;> simp [hd, ht]

theorem Serves.redirect {g' : Graph} {f : Renaming} {type : InputType}
    (hfind : ∀ x, g'.node? x = (g.node? x).map (Node.redirect f)) (h : g.Serves x type) :
    g'.Serves x type := by
  refine h.mono fun found hfound halive => ⟨found.redirect f, ?_, ?_, found.kind_redirect f⟩
  · rw [hfind, hfound, Option.map_some]
  · rw [Node.isAlive_redirect, halive]

/-- Moving the usages of `id` in some roles renames what attached nodes hold. -/
theorem run_moveUsages (b : g.Balanced) (halive : g.isAlive id = true) (r : Replacement)
    {types : List InputType}
    (hnodup : types.Nodup)
    (hserves : ∀ type ∈ types, ∀ target, r.target type = some target → g.Serves target type) :
    ∃ g', (moveUsages id r types).run g = .ok () g' ∧ g'.Balanced ∧ SameFrame g g' ∧
      ∀ x, g'.node? x = (g.node? x).map (Node.redirect (retarget id r types)) := by
  induction types generalizing g with
  | nil =>
      refine ⟨g, rfl, b, .refl g, ?_⟩
      intro x
      have hself : Node.redirect (retarget id r []) = fun node => node := by
        funext node
        unfold Node.redirect
        split
        · exact Node.rename_eq_self fun _ _ _ _ _ => if_neg fun h => List.not_mem_nil h.2
        · rfl
      rw [hself, Option.map_id']
  | cons type types ih =>
      obtain ⟨hnew, hnodup⟩ := List.nodup_cons.mp hnodup
      unfold moveUsages
      cases htarget : r.target type with
      | none =>
          rw [retarget_cons_of_none htarget]
          exact ih b halive hnodup fun t ht => hserves t (List.mem_cons_of_mem _ ht)
      | some target =>
          have hserve := hserves type List.mem_cons_self target htarget
          have hcheck : g.checkReplaceAtUsagesOfType id type (some target) =
              .ok ((g.usageSites id).filter fun site => site.info.inputType = type) := by
            refine checkReplaceAtUsagesOfType_eq_ok_iff.mpr ⟨halive, rfl, ?_⟩
            apply checkSites_eq_ok_iff.mpr
            intro site hsite
            obtain ⟨hmem, htype⟩ := List.mem_filter.mp hsite
            obtain ⟨user, huser, -⟩ := b.mem_usageSites_iff.mp hmem
            refine ⟨⟨user, huser⟩, ?_⟩
            show g.Serves target site.info.inputType
            rw [of_decide_eq_true htype]
            exact hserve
          have hrun := g.run_replaceAtUsagesOfType id type (some target)
          rw [hcheck] at hrun
          dsimp only at hrun
          have hfind := g.node?_moveRole b type id target
          have change : MayChange Node.Built g
              ((replaceAtUsagesOfType id type (some target)).after g) :=
            change_replaceAtUsagesOfType b id type (some target)
          have b' := change.balanced b
          rw [Edit.after_of_run_ok hrun] at b'
          have hframe := g.sameFrame_relinkAll ((g.usageSites id).filter
            fun site => site.info.inputType = type) (some id) (some target)
          -- from here on only what is known of the graph after the move of this role is used
          generalize g.relinkAll ((g.usageSites id).filter fun site => site.info.inputType = type)
            (some id) (some target) = g₁ at hrun hfind b' hframe
          have halive' : g₁.isAlive id = true := by
            unfold isAlive
            rw [hfind, Option.any_map]
            simpa [isAlive, Function.comp_def] using halive
          obtain ⟨g', hrun', b'', hframe', hfind'⟩ := ih b' halive' hnodup
            fun t ht target' h => (hserves t (List.mem_cons_of_mem _ ht) target' h).redirect hfind
          refine ⟨g', ?_, b'', hframe.trans hframe', fun x => ?_⟩
          · rw [run_bind_of_ok hrun, hrun']
          · rw [hfind', hfind, retarget_cons_of_some htarget hnew, Option.map_map]
            refine congrArg (Option.map · (g.node? x)) ?_
            funext node
            exact node.redirect_redirect _ _

/-! ## Substitution -/

/-- The renaming that moves all edges to `id` to the targets of their roles. -/
def reroute (id : NodeId) (r : Replacement) : Renaming :=
  fun t d => if d = id then (r.target t).getD id else d

theorem mem_usedRoles {type : InputType} :
    type ∈ g.usedRoles id ↔ ∃ site ∈ g.usageSites id, site.info.inputType = type := by
  unfold usedRoles
  rw [List.mem_filter, List.any_eq_true]
  simp only [InputType.mem_all, true_and, decide_eq_true_eq]

/-- The role of an edge is used. -/
theorem Balanced.mem_usedRoles_of_input (b : g.Balanced) (hnode : g.node? x = some node)
    (halive : node.isAlive = true) {slot : Nat} {info : SlotInfo}
    (hinfo : node.slotInfo slot = some info) (hinput : node.input slot = some id) :
    info.inputType ∈ g.usedRoles id := by
  refine mem_usedRoles.mpr ⟨⟨x, slot, info⟩, ?_, rfl⟩
  exact b.mem_usageSites_iff.mpr ⟨node, hnode, halive, lt_length_of_input hinput, hinput, hinfo⟩

/-- Only used roles matter to where edges go. -/
theorem Balanced.redirect_retarget (b : g.Balanced) (hnode : g.node? x = some node)
    (r : Replacement) :
    node.redirect (retarget id r (g.usedRoles id)) = node.redirect (reroute id r) := by
  unfold Node.redirect
  split
  · next halive =>
    apply Node.rename_congr
    intro slot info d hinfo hinput
    simp only [retarget, reroute]
    by_cases hd : d = id
    · subst hd
      simp [b.mem_usedRoles_of_input hnode halive hinfo hinput]
    · simp [hd]
  · rfl

/-- **All usages of `id` are moved**, if in every role in which it is used its target serves. -/
theorem Balanced.run_moveUsages_usedRoles (b : g.Balanced) (hid : g.isAlive id = true)
    (htarget : ∀ type ∈ g.usedRoles id, ∃ target, r.target type = some target ∧
      g.Serves target type) :
    ∃ g', (moveUsages id r (g.usedRoles id)).run g = .ok () g' ∧ g'.Balanced ∧ SameFrame g g' ∧
      ∀ x, g'.node? x = (g.node? x).map (Node.redirect (reroute id r)) := by
  have hnodup : (g.usedRoles id).Nodup := by
    unfold usedRoles
    exact List.Pairwise.filter _ (by decide : InputType.all.Nodup)
  obtain ⟨g', hmove, b', hframe, hfind⟩ := run_moveUsages b hid r hnodup (by
    intro type htype target h
    obtain ⟨found, hfound, hserves⟩ := htarget type htype
    cases h.symm.trans hfound
    exact hserves)
  refine ⟨g', hmove, b', hframe, fun x => ?_⟩
  rw [hfind]
  cases hx : g.node? x with
  | none => rfl
  | some found => exact congrArg some (b.redirect_retarget hx r)

/-- What has other targets in all roles in which it is used is in no use once they took over. -/
theorem Balanced.usages_eq_nil_of_reroute {g' : Graph} (b : g.Balanced) (b' : g'.Balanced)
    (hfind : ∀ x, g'.node? x = (g.node? x).map (Node.redirect (reroute id r)))
    (htarget : ∀ type ∈ g.usedRoles id, ∃ target, r.target type = some target ∧ target ≠ id) :
    g'.usages id = [] := by
  apply List.eq_nil_iff_forall_not_mem.mpr
  intro user hmem
  obtain ⟨found, hfound, halive, hslots⟩ := b'.mem_usages_iff.mp hmem
  obtain ⟨slot, hslot⟩ := mem_slots_iff.mp hslots
  rw [hfind] at hfound
  obtain ⟨node, hnode, rfl⟩ := Option.map_eq_some_iff.mp hfound
  rw [Node.isAlive_redirect] at halive
  rw [Node.redirect_of_isAlive halive] at hslot
  have hlt : slot < node.slots.length := by simpa using lt_length_of_input hslot
  obtain ⟨info, hinfo, -⟩ := (b.placed hnode).slotsFit halive slot hlt
  rw [Node.input_rename_of_slotInfo hinfo] at hslot
  obtain ⟨d, hinput, hd⟩ := Option.map_eq_some_iff.mp hslot
  -- a slot that held the node holds its target now, and no other slot was moved
  by_cases he : d = id
  · subst he
    obtain ⟨target, htarget, hne⟩ :=
      htarget _ (b.mem_usedRoles_of_input hnode halive hinfo hinput)
    unfold reroute at hd
    rw [if_pos rfl, htarget] at hd
    exact hne hd
  · unfold reroute at hd
    rw [if_neg he] at hd
    exact he hd

theorem node?_markLowered (g : Graph) (nodes : List NodeId) (x : NodeId) :
    (g.markLowered nodes).node? x =
      (g.node? x).map fun node =>
        if x ∈ nodes ∧ node.isAlive = true then node.marked else node := by
  unfold markLowered
  induction nodes generalizing g with
  | nil => simp
  | cons id ids ih =>
      rw [List.foldl_cons, ih]
      by_cases halive : g.isAlive id = true
      · rw [if_pos halive, node?_modifyNode]
        by_cases he : id = x
        · subst he
          obtain ⟨node, hnode, hnodeAlive⟩ := isAlive_iff_exists.mp halive
          rw [if_pos rfl, hnode]
          simp only [Option.map_some, List.mem_cons_self, hnodeAlive, and_self, if_true]
          refine congrArg some ?_
          split <;> rfl
        · rw [if_neg he]
          simp only [List.mem_cons, Ne.symm he, false_or]
      · rw [if_neg halive]
        cases hnode : g.node? x with
        | none => rfl
        | some node =>
            refine congrArg some (ite_congr (propext ?_) (fun _ => rfl) fun _ => rfl)
            rw [List.mem_cons]
            refine and_congr_left fun hnodeAlive => (or_iff_right ?_).symm
            rintro rfl
            exact halive (isAlive_iff_exists.mpr ⟨node, hnode, hnodeAlive⟩)

theorem sameFrame_markLowered (g : Graph) (nodes : List NodeId) :
    SameFrame g (g.markLowered nodes) := by
  unfold markLowered
  refine SameFrame.foldl (fun g id => ?_) nodes g
  dsimp only
  split
  · exact g.sameFrame_modifyNode id _
  · exact .refl g

/-- **Substitution renames what the attached nodes hold.**  The node that is replaced holds nothing
any more, and the nodes of the replacement are marked. -/
theorem Balanced.run_substitute (b : g.Balanced) (hnode : g.node? id = some node)
    (halive : node.isAlive = true)
    (htarget : ∀ type ∈ g.usedRoles id,
      ∃ target, r.target type = some target ∧ target ≠ id ∧ g.Serves target type) :
    ∃ g', (substitute id r).run g = .ok () g' ∧ g'.Balanced ∧ SameFrame g g' ∧
      ∀ x, g'.node? x =
        if id = x then some node.buried
        else (g.node? x).map fun node =>
          if x ∈ r.nodes ∧ node.isAlive = true then (node.redirect (reroute id r)).marked
          else node.redirect (reroute id r) := by
  have hid : g.isAlive id = true := isAlive_iff_exists.mpr ⟨node, hnode, halive⟩
  obtain ⟨g₁, hmove, b₁, hframe₁, hfind₁⟩ := b.run_moveUsages_usedRoles hid fun type htype => by
    obtain ⟨target, h, -, hserves⟩ := htarget type htype
    exact ⟨target, h, hserves⟩
  have hunused : g₁.usages id = [] := b.usages_eq_nil_of_reroute b₁ hfind₁ fun type htype => by
    obtain ⟨target, h, hne, -⟩ := htarget type htype
    exact ⟨target, h, hne⟩
  have hnode₁ : g₁.node? id = some (node.redirect (reroute id r)) := by
    rw [hfind₁, hnode, Option.map_some]
  have hcheck : g₁.checkRetire id = .ok () :=
    checkRetire_eq_ok_iff.mpr ⟨isAlive_iff_exists.mpr ⟨_, hnode₁, by simpa using halive⟩, hunused⟩
  have hretire := g₁.run_retire id
  rw [hcheck] at hretire
  dsimp only at hretire
  have hrun : (substitute id r).run g = .ok () ((g₁.bury id .replaced).markLowered r.nodes) := by
    unfold substitute
    rw [Edit.run_get_bind, run_bind_of_ok hmove, run_bind_of_ok hretire]
    rfl
  refine ⟨_, hrun, ?_, ?_, fun x => ?_⟩
  · have leads : Leads Node.Built g ((substitute id r).after g) := leads_substitute id r g
    rw [← Edit.after_of_run_ok hrun]
    exact (leads b).balanced b
  · exact (hframe₁.trans (g₁.sameFrame_bury id .replaced)).trans (sameFrame_markLowered _ _)
  · rw [node?_markLowered, node?_bury, hfind₁]
    by_cases he : id = x
    · subst he
      rw [if_pos rfl, if_pos rfl, hnode]
      simp [Node.isAlive, NodeState.isAlive, Node.buried]
    · rw [if_neg he, if_neg he, Option.map_map]
      refine congrArg (Option.map · (g.node? x)) ?_
      funext found
      simp only [Function.comp_apply, Node.isAlive_redirect]

/-- A substitution that succeeds keeps well-formed graphs well formed. -/
theorem WellFormed.after_substitute (wf : g.WellFormed) {g' : Graph}
    (hrun : (substitute id r).run g = .ok () g') : g'.WellFormed := by
  have leads : Leads Node.Built g ((Graph.substitute id r).after g) := leads_substitute id r g
  rw [← Edit.after_of_run_ok hrun]
  exact (leads wf.toBalanced).wellFormed (fun _ built => built) wf

end Graph

end SeaOfNodes
