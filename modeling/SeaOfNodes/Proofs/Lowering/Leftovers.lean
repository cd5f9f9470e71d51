import Mathlib.Data.Nat.Init
import SeaOfNodes.Proofs.Lowering.Construction
import SeaOfNodes.Proofs.Lowering.Rollback

/-!
# What taking back leaves over

Taking back is one pass over the new nodes, the newest first, and it deletes a node if it is
attached and in no use when its turn comes.  A node that was passed over is not looked at again.  So
the pass takes back everything exactly if

* every attached new node refers to nodes that were allocated before it (`Graph.RefersBack`), and
* no new node is left detached.

That is `Graph.Layered`.  Tools that only insert nodes build nothing else, and for them it is not
worth a definition.  A tool that edits its nodes afterwards (`Graph.Constructs`) may build a loop,
or let an older node refer to a newer one, and then the nodes in question are in use when their turn
comes, and stay.

**`Reachable.lowerNode_restores_iff`** is the equivalence.  Apart from it, whether or not nodes are
left over, the old nodes are as they were.

### What is load-bearing

Both directions rest on one fact, `node?_discardSince_of_lt`: when the turn of a node comes, nothing
was done yet to the nodes that are older, and to the node itself.  Hence whoever is older and refers
to the node still does; and of the others nothing is left, by induction.
-/

namespace SeaOfNodes

namespace Graph

variable {g h k : Graph} {node : Node} {id x : NodeId} {mark : Nat}

/-! ## Layers -/

/-- The attached nodes of `h` beyond `g` refer to nodes that were allocated before them. -/
def RefersBack (g h : Graph) : Prop :=
  ∀ x node d, g.size ≤ x.index → h.node? x = some node → node.isAlive = true →
    some d ∈ node.slots → d.index < x.index

/-- **The nodes of `h` beyond `g` lie one on top of the other.** -/
structure Layered (g h : Graph) : Prop where
  /-- They refer to nodes that were allocated before them. -/
  refersBack : RefersBack g h
  /-- They were inserted, unless they are gone already. -/
  settled : ∀ {x node}, g.size ≤ x.index → h.node? x = some node →
    node.isAlive = true ∨ node.state = .deleted

/-- Layers can be checked node by node. -/
theorem layered_iff :
    Layered g h ↔ ∀ x ∈ h.ids, g.size ≤ x.index → ∀ node ∈ h.node? x,
      (node.isAlive = true ∨ node.state = .deleted) ∧
        (node.isAlive = true → ∀ d ∈ node.inputs, d.index < x.index) := by
  constructor
  · intro layered x _ hx node hnode
    refine ⟨layered.settled hx hnode, fun halive d hd => ?_⟩
    exact layered.refersBack x node d hx hnode halive ((node.mem_inputs d).mp hd)
  · intro hall
    have hmem : ∀ {x node}, h.node? x = some node → x ∈ h.ids := fun hnode =>
      (h.nodes.mem_ids _).mpr (lt_size_of_node? hnode)
    refine ⟨fun x node d hx hnode halive hheld => ?_, fun {x node} hx hnode => ?_⟩
    · exact (hall x (hmem hnode) hx node hnode).2 halive d ((node.mem_inputs d).mpr hheld)
    · exact (hall x (hmem hnode) hx node hnode).1

instance : Decidable (Layered g h) := decidable_of_iff _ layered_iff.symm

/-! ## One turn -/

theorem node?_discard_of_ne (k : Graph) (hne : id ≠ x) : (k.discard id).node? x = k.node? x := by
  rw [discard]
  split
  · rw [node?_bury, if_neg hne]
  · rfl

/-- What is in use, or not attached, is passed over. -/
theorem discard_eq_self (hkept : k.isAlive id = true → k.usages id ≠ []) : k.discard id = k := by
  rw [discard, if_neg]
  intro hboth
  obtain ⟨halive, hunused⟩ := Bool.and_eq_true_iff.mp hboth
  exact hkept halive (List.isEmpty_iff.mp hunused)

/-- What is in no use is not attached any more after its turn. -/
theorem isAlive_discard (hunused : k.isAlive id = true → k.usages id = []) :
    (k.discard id).isAlive id = false := by
  rw [discard]
  split
  · rw [isAlive, node?_bury, if_pos rfl, Option.any_map]
    cases k.node? id <;> rfl
  · next hkept =>
    rw [Bool.and_eq_true, not_and, List.isEmpty_iff] at hkept
    exact Bool.eq_false_iff.mpr fun halive => hkept halive (hunused halive)

/-! ## The pass -/

/-- When the turn of a node comes, nothing was done yet to it or to an older one. -/
theorem node?_discardSince_of_lt (hmark : mark ≤ h.size) (hx : x.index < mark) :
    (h.discardSince mark).node? x = h.node? x := by
  induction hmark using Nat.decreasingInduction with
  | self => rw [discardSince_size]
  | of_succ j hj ih =>
      have hne : (⟨j⟩ : NodeId) ≠ x := by
        rintro rfl
        exact Nat.lt_irrefl _ hx
      rw [discardSince_of_lt hj, node?_discard_of_ne _ hne, ih (Nat.lt_succ_of_lt hx)]

/-- After the turn of a node nothing is done to it. -/
theorem node?_discardSince_of_le (hx : x.index < h.size) (hmark : mark ≤ x.index) :
    (h.discardSince mark).node? x = ((h.discardSince (x.index + 1)).discard x).node? x := by
  induction hmark using Nat.decreasingInduction with
  | self => rw [discardSince_of_lt hx]
  | of_succ j hj ih =>
      have hne : (⟨j⟩ : NodeId) ≠ x := by
        rintro rfl
        exact Nat.lt_irrefl _ hj
      rw [discardSince_of_lt (Nat.lt_trans hj hx), node?_discard_of_ne _ hne, ih]

/-- A node that is kept at its turn is kept as it is. -/
theorem node?_discardSince_of_kept (hx : x.index < h.size) (hmark : mark ≤ x.index)
    (hkept : h.isAlive x = true → (h.discardSince (x.index + 1)).usages x ≠ []) :
    (h.discardSince mark).node? x = h.node? x := by
  have hturn := node?_discardSince_of_lt (h := h) (Nat.succ_le_of_lt hx) (Nat.lt_succ_self x.index)
  rw [node?_discardSince_of_le hx hmark, discard_eq_self, hturn]
  intro halive
  rw [isAlive, hturn] at halive
  exact hkept halive

theorem wellFormed_discardSince (wf : h.WellFormed) (mark : Nat) :
    (h.discardSince mark).WellFormed := by
  have revisions : Revisions Node.Built h (h.discardSince mark) := revisions_discardSince h mark
  exact revisions.changes.wellFormed (fun _ hnode => hnode) wf

theorem Extends.discardSince (extends' : Extends g h) (fresh : g.Fresh) (hmark : mark ≤ h.size)
    (hbeyond : g.size ≤ mark) : Extends g (h.discardSince mark) := by
  induction hmark using Nat.decreasingInduction with
  | self => rwa [discardSince_size]
  | of_succ j hj ih =>
      rw [discardSince_of_lt hj]
      exact (ih (Nat.le_succ_of_le hbeyond)).discard fresh hbeyond

/-! ## What refers back is deleted -/

/-- An attached node that refers to a new one is newer still, if the new ones refer back. -/
theorem RefersBack.lt_of_held (refersBack : RefersBack g h) (extends' : Extends g h)
    (wf : g.WellFormed) {user d : NodeId} (hd : g.size ≤ d.index) (hnode : h.node? user = some node)
    (halive : node.isAlive = true) (hheld : some d ∈ node.slots) : d.index < user.index := by
  by_cases hnew : g.size ≤ user.index
  · exact refersBack user node d hnew hnode halive hheld
  · -- an old node holds old nodes only
    rw [extends'.old (Nat.lt_of_not_le hnew)] at hnode
    exact absurd (((wf.node hnode).slotsFit halive).lt_size hheld) (Nat.not_lt.mpr hd)

/-- **What refers back is gone after the pass.**  The induction is from the newest node on: when the
turn of a node comes, all that could refer to it are gone. -/
theorem RefersBack.isAlive_discardSince (refersBack : RefersBack g h) (extends' : Extends g h)
    (wf : g.WellFormed) (wf' : h.WellFormed) (hmark : mark ≤ h.size) (hbeyond : g.size ≤ mark)
    (hx : mark ≤ x.index) : (h.discardSince mark).isAlive x = false := by
  induction hmark using Nat.decreasingInduction generalizing x with
  | self =>
      rw [discardSince_size, isAlive, (h.node?_eq_none_iff x).mpr hx]
      rfl
  | of_succ j hj ih =>
      rw [discardSince_of_lt hj]
      by_cases hturn : x.index = j
      · obtain rfl : x = ⟨j⟩ := ArenaId.ext_index hturn
        refine isAlive_discard fun _ => List.eq_nil_iff_forall_not_mem.mpr fun user huser => ?_
        obtain ⟨found, hfound, halive, hheld⟩ :=
          (wellFormed_discardSince wf' (j + 1)).mem_usages_iff.mp huser
        by_cases hlater : j + 1 ≤ user.index
        · have hgone := ih (Nat.le_succ_of_le hbeyond) hlater
          rw [isAlive, hfound, Option.any_some, halive] at hgone
          cases hgone
        · -- an older user is as it was, and so it does not refer to a newer node
          rw [node?_discardSince_of_lt hj (Nat.lt_of_not_le hlater)] at hfound
          have hlt : j < user.index := refersBack.lt_of_held extends' wf hbeyond hfound halive hheld
          exact hlater hlt
      · have hne : (⟨j⟩ : NodeId) ≠ x := fun he => hturn (congrArg ArenaId.index he.symm)
        rw [isAlive, node?_discard_of_ne _ hne]
        exact ih (Nat.le_succ_of_le hbeyond) (by omega)

/-- When the new nodes are gone, the usage lists are as they were. -/
theorem Extends.usages_eq (extends' : Extends g k) (wf : g.WellFormed) (wf' : k.WellFormed)
    (hgone : ∀ {user : NodeId}, g.size ≤ user.index → k.isAlive user = false) (d : NodeId) :
    k.usages d = g.usages d := by
  obtain ⟨rest, hrest⟩ := extends'.usages d
  rcases List.eq_nil_or_concat rest with rfl | ⟨_, user, rfl⟩
  · rw [← hrest, List.append_nil]
  · -- an entry more would be of an attached node, and old nodes are noted as often as before
    exfalso
    have hcount : (k.usages d).count user = (g.usages d).count user := by
      by_cases hnew : g.size ≤ user.index
      · rw [wf'.count_usages_eq_zero (hgone hnew),
          List.count_eq_zero.mpr ((wf.fresh user hnew).2 d)]
      · have hold := extends'.old (Nat.lt_of_not_le hnew)
        cases hnode : g.node? user with
        | none => rw [wf.absent hnode, wf'.absent (hold.trans hnode)]
        | some node =>
            rw [(wf.node hnode).count_usages, (wf'.node (hold.trans hnode)).count_usages]
    rw [← hrest, List.count_append, List.concat_eq_append, List.count_append,
      List.count_singleton_self] at hcount
    omega

/-! ## Taking back and layers -/

/-- **Layers are taken back.** -/
theorem Layered.restores (layered : Layered g h) (extends' : Extends g h) (wf : g.WellFormed)
    (wf' : h.WellFormed) : Restores g (h.discardSince g.size) := by
  have hmark := extends'.size_le
  have hafter := wellFormed_discardSince wf' g.size
  have hextends := extends'.discardSince wf.fresh hmark (Nat.le_refl _)
  have hgone : ∀ {x : NodeId}, g.size ≤ x.index → (h.discardSince g.size).isAlive x = false :=
    layered.refersBack.isAlive_discardSince extends' wf wf' hmark (Nat.le_refl _)
  refine ⟨hextends.old, hextends.usages_eq wf hafter hgone, fun {x found} hx hfound => ?_⟩
  have hlt : x.index < h.size := by
    rw [← (h.sameFrame_discardSince g.size).size]
    exact lt_size_of_node? hfound
  have hstate : found.state = .deleted := by
    have hdead := hgone hx
    rw [isAlive, hfound] at hdead
    rw [node?_discardSince_of_le hlt hx, discard] at hfound
    split at hfound
    · -- its turn has come
      rw [node?_bury, if_pos rfl] at hfound
      obtain ⟨_, -, rfl⟩ := Option.map_eq_some_iff.mp hfound
      rfl
    · -- it was passed over, and so it was gone before
      rw [node?_discardSince_of_lt (Nat.succ_le_of_lt hlt) (Nat.lt_succ_self _)] at hfound
      refine (layered.settled hx hfound).resolve_left fun halive => ?_
      rw [Option.any_some, halive] at hdead
      cases hdead
  exact ⟨hstate, (hafter.node hfound).slots_eq_nil (.inr hstate), hafter.usages_eq_nil (hgone hx)⟩

/-- **Only layers are taken back.** -/
theorem Restores.layered (restores : Restores g (h.discardSince g.size)) (wf' : h.WellFormed) :
    Layered g h where
  refersBack x node d hx hnode halive hheld := by
    refine Nat.lt_of_not_le fun hle => ?_
    obtain ⟨slot, hinput⟩ := mem_slots_iff.mp hheld
    obtain ⟨-, -, target, htarget, htargetAlive, -⟩ := wf'.serves_of_input hnode halive hinput
    have hd := lt_size_of_node? htarget
    -- at the turn of what it holds the node is as it was
    have hnode' := hnode
    rw [← node?_discardSince_of_lt (Nat.succ_le_of_lt hd) (Nat.lt_succ_of_le hle)] at hnode'
    have hused : (h.discardSince (d.index + 1)).usages d ≠ [] :=
      List.ne_nil_of_mem ((wellFormed_discardSince wf' _).mem_usages_iff.mpr
        ⟨node, hnode', halive, hheld⟩)
    have hkept := node?_discardSince_of_kept hd (Nat.le_trans hx hle) fun _ => hused
    obtain ⟨hstate, -⟩ := restores.new (Nat.le_trans hx hle) (hkept.trans htarget)
    rw [Node.isAlive, hstate] at htargetAlive
    cases htargetAlive
  settled {x node} hx hnode := by
    by_cases halive : node.isAlive = true
    · exact .inl halive
    · have hdead : ¬ h.isAlive x = true := by rwa [isAlive, hnode]
      have hkept := node?_discardSince_of_kept (lt_size_of_node? hnode) hx fun h => absurd h hdead
      exact .inr (restores.new hx (hkept.trans hnode)).1

/-! ## Tools that decline -/

variable {σ : Type} {admits : Node → Prop} {tool : LoweringTool σ} {memory memory' : σ}
  {v : Violation}

/-- **A failed expansion is taken back if and only if it was layered.**  In a graph that a run leads
to, let an attached access be lowered by a tool that keeps to its own nodes, whatever it builds of
them, and that fails or answers a replacement that is not accepted.  The lowering fails; the old
nodes are as they were, and every usage list begins with what it was.  That nothing else is left, so
that all new nodes are deleted and the usage lists are what they were, is the case exactly if every
new node that is attached refers to nodes that were allocated before it, and no new node is left
detached. -/
theorem Reachable.lowerNode_restores_iff (reachable : g.Reachable) (hid : g.isLowerable id = true)
    (declines : Declines tool id g memory v h memory') (constructed : Constructs Node.Built g h) :
    ∃ g', (lowerNode tool id).run (g, memory) = .error (.violation v) (g', memory') ∧
      Extends g g' ∧ (Restores g g' ↔ Layered g h) := by
  have built : ∀ node : Node, node.Built → node.Built := fun _ hnode => hnode
  have wf := reachable.wellFormed
  have wf' := constructed.wellFormed built wf
  have extends' := constructed.extends built wf
  refine ⟨_, run_lowerNode_of_declines hid declines, ?_, ?_⟩
  · exact extends'.discardSince wf.fresh extends'.size_le (Nat.le_refl _)
  · exact ⟨fun restores => restores.layered wf',
      fun layered => layered.restores extends' wf wf'⟩

/-- A fence behind `control`. -/
def fenceBehind (control : NodeId) : Node := .withInputs (.memoryBarrier .full) .void [some control]

theorem built_fenceBehind (control : NodeId) : (fenceBehind control).Built :=
  Node.built_withInputs _ _ _

/-- A tool that allocates a fence before it knows what stands behind it, inserts the fence later,
and then fails. -/
def fenceLater : LoweringTool Unit := .ofEdit fun id => do
  let fence ← addDetached (fenceBehind id)
  attach fence
  let _ ← add (fenceBehind fence)
  Edit.refuse (.unknownNode ⟨99⟩)

/-- What it leaves is layered, and is taken back. -/
theorem restores_fenceLater :
    ∃ g', (lowerNode fenceLater ⟨5⟩).run (storeThenLoad, ()) =
        .error (.violation (.unknownNode ⟨99⟩)) (g', ()) ∧ Restores storeThenLoad g' := by
  let h : Graph := (add (fenceBehind ⟨8⟩)).after <| (attach ⟨8⟩).after <|
    (addDetached (fenceBehind ⟨5⟩)).after storeThenLoad
  have constructed : Constructs Node.Built storeThenLoad h :=
    .edit (.edit (.edit .refl (.addDetached (built_fenceBehind _)))
      (.attach (by decide +kernel))) (.create (.add (built_fenceBehind _)))
  have declines : Declines fenceLater ⟨5⟩ storeThenLoad () (.unknownNode ⟨99⟩) h () := .failed rfl
  obtain ⟨g', hrun, -, hiff⟩ := Reachable.lowerNode_restores_iff reachable_storeThenLoad
    (by decide +kernel) declines constructed
  exact ⟨g', hrun, hiff.mpr (by decide +kernel)⟩

/-- A tool that lets its first fence stand behind its second one, and then fails. -/
def fenceLoop : LoweringTool Unit := .ofEdit fun id => do
  let first ← add (fenceBehind id)
  let second ← add (fenceBehind first)
  let _ ← setInput first 0 (some second)
  Edit.refuse (.unknownNode ⟨99⟩)

/-- The two fences are in use when their turn comes, by each other, and stay attached. -/
theorem fenceLoop_left_over :
    storeThenLoad.Reachable ∧ storeThenLoad.isLowerable ⟨5⟩ = true ∧
      ∃ h g', Constructs Node.Built storeThenLoad h ∧
        (fenceLoop ⟨5⟩).run (storeThenLoad, ()) =
          .error (.violation (.unknownNode ⟨99⟩)) (h, ()) ∧
        (lowerNode fenceLoop ⟨5⟩).run (storeThenLoad, ()) =
          .error (.violation (.unknownNode ⟨99⟩)) (g', ()) ∧
        g'.state? ⟨8⟩ = some .attached ∧ g'.state? ⟨9⟩ = some .attached := by
  let h : Graph := (setInput ⟨8⟩ 0 (some ⟨9⟩)).after <| (add (fenceBehind ⟨8⟩)).after <|
    (add (fenceBehind ⟨5⟩)).after storeThenLoad
  have constructed : Constructs Node.Built storeThenLoad h :=
    .edit (.edit (.edit .refl (.create (.add (built_fenceBehind _))))
      (.create (.add (built_fenceBehind _)))) (.setInput (by decide +kernel) 0 _)
  have hrun : (fenceLoop ⟨5⟩).run (storeThenLoad, ()) =
      .error (.violation (.unknownNode ⟨99⟩)) (h, ()) := rfl
  have hid : storeThenLoad.isLowerable ⟨5⟩ = true := by decide +kernel
  exact ⟨reachable_storeThenLoad, hid, h, _, constructed, hrun,
    run_lowerNode_of_declines hid (.failed hrun), by decide +kernel, by decide +kernel⟩

end Graph

end SeaOfNodes
