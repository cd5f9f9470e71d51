import SeaOfNodes.Proofs.Graph.ControlChain
import SeaOfNodes.Proofs.Lowering.Totality

/-!
# Expansions are spliced into control chains

The fixed nodes of an expansion follow one another in control flow, the first of them after whatever
has taken the place of the control predecessor of the lowered node; and what came after the lowered
node comes after the last of them.  So the control chain of a node after the pass is the chain from
before, in which every lowered node was replaced by its block: **`Reachable.run_splices_control`**.

A block consists of nodes of the kinds that `LoweringConfig.blockKinds` lists, in this order.
-/

namespace SeaOfNodes

namespace Placement

/-- The fixed nodes for one node, in control order. -/
def fixed (p : Placement) (id : NodeId) : List NodeId :=
  ((p.plan id).first (p.base id)).span (p.plan id).block.steps.length

/-- What stands in the place of a node in control flow, after the listed ones were lowered. -/
def splice (p : Placement) (ids : List NodeId) (id : NodeId) : List NodeId :=
  if id ∈ ids then p.fixed id else [id]

variable {p : Placement} {ids : List NodeId} {id x : NodeId}

/-- The fixed nodes are new nodes. -/
theorem mem_block_of_mem_fixed (h : x ∈ p.fixed id) : x ∈ p.block id := by
  have hle : (p.plan id).size = (p.plan id).lead.length + (p.plan id).block.steps.length := rfl
  obtain ⟨hfrom, hto⟩ := (ArenaId.mem_span _).mp h
  unfold Plan.first at hfrom hto
  rw [ArenaId.index_advance] at hfrom hto
  exact (ArenaId.mem_span _).mpr ⟨by omega, by omega⟩

theorem length_steps_pos (p : Placement) (id : NodeId) : 0 < (p.plan id).block.steps.length := by
  unfold Block.steps
  rw [List.length_append, List.length_cons]
  omega

/-- The last of them takes over control. -/
theorem successor_control (h : id ∈ ids) :
    p.successor ids .control id =
      ((p.plan id).first (p.base id)).advance ((p.plan id).block.steps.length - 1) := by
  have hlength : (p.plan id).block.steps.length - 1 =
      (p.plan id).block.before.length + (p.plan id).block.after.length := by
    unfold Block.steps
    rw [List.length_append, List.length_cons]
    omega
  rw [successor_of_mem h rfl, hlength, Plan.first, ArenaId.advance_advance]

theorem getLast?_splice (p : Placement) (ids : List NodeId) (id : NodeId) :
    (p.splice ids id).getLast? = some (p.successor ids .control id) := by
  have hpos := p.length_steps_pos id
  unfold splice
  split
  · next hid =>
    rw [successor_control hid, fixed, List.getLast?_eq_getElem?, ArenaId.length_span,
      ArenaId.getElem?_span _ (by omega)]
  · next hid => rw [successor_of_notMem hid]; rfl

/-- The replacement of a lowered node names what stands last in its place. -/
theorem control_replacement (h : id ∈ ids) :
    (p.replacement id).control = (p.splice ids id).getLast? := by
  rw [getLast?_splice, successor, if_pos h]
  exact Plan.target_replacement _ _ InputType.control

end Placement

namespace Graph

variable {g g' : Graph} {config : LoweringConfig} {ids : List NodeId} {p : Placement}
  {id prev x : NodeId} {node : Node}

namespace Lowered

/-- **A fixed node of an expansion.**  It is of the kind of its step and stands behind the fixed
node before it, the first one behind what took the place of the control predecessor. -/
theorem exists_fixed (h : Lowered config g ids p g') (hid : id ∈ ids) {k : Nat} {step : Step}
    (hstep : (p.plan id).block.steps[k]? = some step) :
    ∃ node, g'.node? (((p.plan id).first (p.base id)).advance k) = some node ∧
      node.isAlive = true ∧ node.kind = step.kind ∧
      g'.controlPredecessor (((p.plan id).first (p.base id)).advance k) =
        some (p.successor ids .control
          (if k = 0 then (p.plan id).control
            else ((p.plan id).first (p.base id)).advance (k - 1))) := by
  have hmem := List.mem_of_getElem? hstep
  have hfull : step.Full := LoweringConfig.full_of_planOf (h.planned id hid) step hmem
  obtain ⟨access, haccess, -, -⟩ := isLowerable_iff.mp (h.lowerable id hid)
  have hkind : step.kind ∈ config.blockKinds g.locations access.kind := by
    rw [← LoweringConfig.kinds_steps_of_planOf (h.planned id hid) (h.liveNode?_of_mem hid haccess)]
    exact List.mem_map_of_mem hmem
  have hfixed : step.kind.isFixed = true := config.isFixed_of_mem_blockKinds hkind
  have hplanned := (p.plan id).getElem?_nodes (p.base id) k
  rw [hstep, Option.map_some] at hplanned
  have hnode := h.new id hid _ _ hplanned
  have hid' : (p.base id).advance ((p.plan id).lead.length + k) =
      ((p.plan id).first (p.base id)).advance k := (ArenaId.advance_advance _ _ _).symm
  rw [hid'] at hnode
  refine ⟨_, hnode, rfl, rfl, ?_⟩
  have hinfo : step.kind.layout[0]? = some .control := by
    obtain ⟨infos, hlayout, -⟩ := hfull
    rw [hlayout]
    rfl
  unfold controlPredecessor
  rw [hnode, Option.bind_some]
  unfold Node.controlInput
  rw [Node.kind_rename, if_pos (by exact hfixed), Node.input_rename_of_layout _ rfl hinfo]
  show ((step.node _).slots[0]?).join.map _ = _
  rw [hfull.slots_node]
  rfl

/-- **The kinds of the fixed nodes for one node.** -/
theorem kinds_fixed (h : Lowered config g ids p g') (hid : id ∈ ids)
    (hnode : g.liveNode? id = some node) :
    g'.kinds (p.fixed id) = config.blockKinds g.locations node.kind := by
  rw [← LoweringConfig.kinds_steps_of_planOf (h.planned id hid) hnode]
  unfold Placement.fixed
  refine kinds_eq ?_ fun k x kind hx hkind => ?_
  · rw [ArenaId.length_span, List.length_map]
  · rw [List.getElem?_map] at hkind
    obtain ⟨step, hstep, rfl⟩ := Option.map_eq_some_iff.mp hkind
    rw [ArenaId.getElem?_span _ (List.getElem?_eq_some_iff.mp hstep).1] at hx
    cases hx
    obtain ⟨found, hfound, -, hkind, -⟩ := h.exists_fixed hid hstep
    exact ⟨found, hfound, hkind⟩

/-- A node that was not lowered has, as its control predecessor, what took the place of the one that
it had. -/
theorem controlPredecessor_old (wf : g.WellFormed) (h : Lowered config g ids p g') (hid : id ∉ ids)
    (halive : g.isAlive id = true) :
    g'.controlPredecessor id = (g.controlPredecessor id).map (p.successor ids .control) := by
  obtain ⟨node, hnode, hnodeAlive⟩ := isAlive_iff_exists.mp halive
  have hnode' : g'.node? id = some (node.rename (p.successor ids)) := by
    rw [h.old id hid (lt_size_of_node? hnode), hnode, Option.map_some,
      Node.redirect_of_isAlive hnodeAlive]
  have hcontrol : (node.rename (p.successor ids)).controlInput =
      node.controlInput.map (p.successor ids .control) := by
    cases hprev : node.controlInput with
    | none =>
        -- a renaming fills no slot
        unfold Node.controlInput at hprev ⊢
        rw [Node.kind_rename]
        split at hprev
        · next hfixed =>
          rw [if_pos hfixed, Node.input_rename, hprev]
          cases node.slotInfo 0 <;> rfl
        · next hfloating => rw [if_neg hfloating]; rfl
    | some prev =>
        have hpredecessor : g.controlPredecessor id = some prev := by
          unfold controlPredecessor
          rw [hnode]
          exact hprev
        obtain ⟨hfixed, hlayout, hinput, -⟩ := wf.exists_control hnode hnodeAlive hpredecessor
        unfold Node.controlInput
        rw [Node.kind_rename, if_pos hfixed, Node.input_rename_of_layout _ rfl hlayout, hinput]
        rfl
  unfold controlPredecessor
  rw [hnode', hnode]
  exact hcontrol

/-- The fixed nodes of an expansion lengthen the chain in their order. -/
theorem controlChain_fixed (h : Lowered config g ids p g') (hid : id ∈ ids) {chain : List NodeId}
    (hchain : g'.ControlChain chain (p.successor ids .control (p.plan id).control)) {k : Nat}
    (hk : k < (p.plan id).block.steps.length) :
    g'.ControlChain (chain ++ ((p.plan id).first (p.base id)).span (k + 1))
      (((p.plan id).first (p.base id)).advance k) := by
  induction k with
  | zero =>
      obtain ⟨-, -, -, -, hprev⟩ := h.exists_fixed hid (List.getElem?_eq_getElem hk)
      exact .next hchain hprev
  | succ k ih =>
      have hchain' := ih (Nat.lt_of_succ_lt hk)
      obtain ⟨-, -, -, -, hprev⟩ := h.exists_fixed hid (List.getElem?_eq_getElem hk)
      -- the node before it is a new one, and nothing takes the place of new nodes
      have hnew : g.size ≤ (((p.plan id).first (p.base id)).advance k).index :=
        Nat.le_trans (h.size_le_base hid)
          (Nat.le_trans (Nat.le_add_right _ _) (Nat.le_add_right _ _))
      rw [if_neg (Nat.succ_ne_zero k), Nat.add_sub_cancel, h.successor_of_size_le hnew] at hprev
      have hnext := ControlChain.next hchain' hprev
      rwa [List.append_assoc, ← ArenaId.span_one, ← ArenaId.span_add] at hnext

/-- **Control chains after lowering.**  Every node of the chain is replaced by what stands in its
place. -/
theorem controlChain (wf : g.WellFormed) (h : Lowered config g ids p g') {chain : List NodeId}
    (hchain : g.ControlChain chain id) (halive : g.isAlive id = true) :
    g'.ControlChain (chain.flatMap (p.splice ids)) (p.successor ids .control id) := by
  induction hchain with
  | start =>
      -- the start node is no access
      obtain ⟨start, hstart, hkind⟩ := wf.start
      have hmem : g.start ∉ ids := h.not_mem_of_kind hstart (by rw [hkind]; rfl)
      rw [Placement.successor_of_notMem hmem, List.flatMap_singleton, Placement.splice,
        if_neg hmem, ← h.start]
      exact .start
  | next chain hprev ih =>
      rename_i before prev id
      obtain ⟨node, hnode, hnodeAlive⟩ := isAlive_iff_exists.mp halive
      obtain ⟨-, -, hinput, hprevAlive⟩ := wf.exists_control hnode hnodeAlive hprev
      have hbefore := ih hprevAlive
      rw [List.flatMap_append, List.flatMap_singleton]
      by_cases hid : id ∈ ids
      · -- the whole block follows, from what took the place of the predecessor on
        have hcontrol : (p.plan id).control = prev := by
          have hplan := LoweringConfig.control_of_planOf (h.planned id hid)
            (h.liveNode?_of_mem hid hnode)
          exact Option.some.inj (hplan.symm.trans hinput)
        have hpos := p.length_steps_pos id
        have hblock := h.controlChain_fixed hid (hcontrol ▸ hbefore) (Nat.sub_one_lt_of_lt hpos)
        rw [Nat.sub_add_cancel hpos, ← Placement.successor_control hid] at hblock
        unfold Placement.splice
        rw [if_pos hid]
        exact hblock
      · rw [Placement.successor_of_notMem hid, Placement.splice, if_neg hid]
        refine .next hbefore ?_
        rw [h.controlPredecessor_old wf hid halive, hprev]
        rfl

/-- What stands in the place of an attached node is attached. -/
theorem isAlive_of_mem_splice (h : Lowered config g ids p g') (hschedule : g.Schedules ids)
    (halive : g.isAlive id = true) (hx : x ∈ p.splice ids id) : g'.isAlive x = true := by
  unfold Placement.splice at hx
  split at hx
  · next hid =>
    exact h.isAlive_new (List.mem_flatMap.mpr ⟨id, hid, Placement.mem_block_of_mem_fixed hx⟩)
  · next hid =>
    obtain ⟨node, hnode, -⟩ := isAlive_iff_exists.mp halive
    rw [List.mem_singleton.mp hx, h.isAlive_old hschedule (lt_size_of_node? hnode), halive,
      hschedule.notMem_iff.mp hid]
    rfl

end Lowered

/-- **Expansions are spliced into control chains.**  In every graph that a run leads to, and for
every configuration, the pass succeeds, and every node has a block that stands in its place:

* the block of a node that is not to be lowered is the node itself;
* the block of a lowerable node consists of new attached nodes, of the kinds that
  `LoweringConfig.blockKinds` lists;
* the last node of the block is what the replacement of the node, which `lowerNode` answers, names
  for control.

The control chain of an attached node is afterwards, up to its last node, the chain from before with
every node replaced by its block, and nothing else; no node occurs in it twice.  Every attached node
that was not lowered has as its control predecessor the last node in the place of the one that it
had. -/
theorem Reachable.run_splices_control (h : g.Reachable) (config : LoweringConfig) :
    ∃ (stats : LoweringStats) (g' : Graph) (rs : List Replacement) (block : NodeId → List NodeId),
      config.run.run g = .ok stats g' ∧
      ((config.traversal.order g).mapM (lowerNode config.tool)).run (g, ()) = .ok rs (g', ()) ∧
      rs.map Replacement.control =
        (config.traversal.order g).map (fun id => (block id).getLast?) ∧
      (∀ id, g.isLowerable id = false → block id = [id]) ∧
      (∀ id node, g.node? id = some node → g.isLowerable id = true →
        g'.kinds (block id) = config.blockKinds g.locations node.kind ∧
        ∀ x ∈ block id, g.size ≤ x.index ∧ g'.isAlive x = true) ∧
      (∀ chain id, g.ControlChain chain id → g.isAlive id = true →
        ∃ last, (block id).getLast? = some last ∧ g'.isAlive last = true ∧
          g'.ControlChain (chain.flatMap block) last ∧ (chain.flatMap block).Nodup ∧
          ∀ other, g'.ControlChain other last → other = chain.flatMap block) ∧
      (∀ id, g.isAlive id = true → g.isLowerable id = false →
        g'.controlPredecessor id =
          (g.controlPredecessor id).bind fun prev => (block prev).getLast?) := by
  have wf := h.wellFormed
  obtain ⟨p, g', hlowered, hmapM, hrun⟩ := wf.run_config config
  have hschedule := config.traversal.schedules_order g
  have hnotMem : ∀ id, g.isLowerable id = false → id ∉ config.traversal.order g :=
    fun id => hschedule.notMem_iff.mpr
  refine ⟨_, g', _, p.splice (config.traversal.order g), hrun, hmapM, ?_, ?_, ?_, ?_, ?_⟩
  · rw [List.map_map]
    exact List.map_congr_left fun id hid => Placement.control_replacement hid
  · exact fun id hlow => if_neg (hnotMem id hlow)
  · intro id node hnode hlow
    have hid := hschedule.mem_iff.mpr hlow
    have hsplice : p.splice (config.traversal.order g) id = p.fixed id := if_pos hid
    rw [hsplice]
    refine ⟨hlowered.kinds_fixed hid (hlowered.liveNode?_of_mem hid hnode), fun x hx => ?_⟩
    have hnew := List.mem_flatMap.mpr ⟨id, hid, Placement.mem_block_of_mem_fixed hx⟩
    exact ⟨(hlowered.mem_blocks_iff.mp hnew).1, hlowered.isAlive_new hnew⟩
  · intro chain id hchain halive
    have hlast := p.getLast?_splice (config.traversal.order g) id
    have hlastAlive := hlowered.isAlive_of_mem_splice hschedule halive (List.mem_of_getLast? hlast)
    have hchain' := hlowered.controlChain wf hchain halive
    exact ⟨_, hlast, hlastAlive, hchain', hchain'.nodup hlowered.wellFormed hlastAlive,
      fun other hother => hother.unique hlowered.wellFormed hchain' hlastAlive⟩
  · intro id halive hlow
    rw [hlowered.controlPredecessor_old wf (hnotMem id hlow) halive]
    cases g.controlPredecessor id with
    | none => rfl
    | some prev => exact (p.getLast?_splice _ prev).symm

/-- A volatile store with a null check, a volatile load and a swap of the same location, one behind
the other. -/
def storeLoadSwap : Graph :=
  (returnValue ⟨7⟩ (some ⟨7⟩)).after <|
  (addCompareAndSwap {
    control := ⟨6⟩, object := ⟨1⟩, offset := ⟨2⟩, expected := ⟨4⟩, newValue := ⟨4⟩
    valueKind := .int, location := LocationUniverse.anyId }).after <|
  (addRead {
    control := ⟨5⟩, address := ⟨3⟩, location := LocationUniverse.anyId
    order := .volatile }).after <|
  (addWrite {
    control := ⟨0⟩, address := ⟨3⟩, location := LocationUniverse.anyId, value := ⟨4⟩
    barrier := .field, nullCheck := true, order := .volatile }).after <|
  (constInt 7 .int).after <|
  (offsetAddress ⟨1⟩ ⟨2⟩).after <|
  (constInt 16 .long).after <|
  (parameter 0 (.object false)).after new

theorem reachable_storeLoadSwap : storeLoadSwap.Reachable :=
  .edit (.edit (.edit (.edit (.edit (.edit (.edit (.edit (.refl new) (.parameter _ _))
    (.constInt _ _)) (.offsetAddress _ _)) (.constInt _ _)) (.addWrite _)) (.addRead _))
    (.addCompareAndSwap _)) (.returnValue _ _)

/-- Where a swap is a retry loop it stands between two fences, and the store and the load get theirs
too; a machine that swaps in one instruction needs no fence for it. -/
theorem run_splices_control_storeLoadSwap :
    (∃ (stats : LoweringStats) (g' : Graph) (block : NodeId → List NodeId),
      (LoweringConfig.aarch64 false).run.run storeLoadSwap = .ok stats g' ∧
      g'.kinds (block ⟨5⟩) =
        [.nullCheck, .writeBarrier .satbPre, .memoryBarrier .release,
          .rawStore ⟨LocationUniverse.anyId, .long, .volatile⟩, .writeBarrier (.cardMark false),
          .memoryBarrier .full] ∧
      g'.kinds (block ⟨6⟩) =
        [.rawLoad ⟨LocationUniverse.anyId, .long, .volatile⟩, .memoryBarrier .acquire] ∧
      g'.kinds (block ⟨7⟩) =
        [.memoryBarrier .release,
          .atomicCas .int LocationUniverse.anyId .loadLinkedStoreConditional,
          .memoryBarrier .full] ∧
      g'.ControlChain ([⟨0⟩] ++ block ⟨5⟩ ++ block ⟨6⟩ ++ block ⟨7⟩ ++ [⟨8⟩]) ⟨8⟩) ∧
    ∃ (stats : LoweringStats) (g' : Graph) (block : NodeId → List NodeId),
      LoweringConfig.forTesting.run.run storeLoadSwap = .ok stats g' ∧
      g'.kinds (block ⟨7⟩) = [.atomicCas .int LocationUniverse.anyId .lockCmpxchg] := by
  have hnode : ∀ id, (h : (storeLoadSwap.node? id).isSome = true) →
      storeLoadSwap.node? id = some ((storeLoadSwap.node? id).get h) :=
    fun _ h => (Option.some_get h).symm
  constructor
  · obtain ⟨stats, g', -, block, hrun, -, -, hkept, hkinds, hchains, -⟩ :=
      Reachable.run_splices_control reachable_storeLoadSwap (.aarch64 false)
    have hstart : storeLoadSwap.start = ⟨0⟩ := by decide +kernel
    have hentered : storeLoadSwap.ControlChain [⟨0⟩] ⟨0⟩ := hstart ▸ .start
    have hstored : storeLoadSwap.ControlChain [⟨0⟩, ⟨5⟩] ⟨5⟩ := .next hentered (by decide +kernel)
    have hloaded : storeLoadSwap.ControlChain [⟨0⟩, ⟨5⟩, ⟨6⟩] ⟨6⟩ :=
      .next hstored (by decide +kernel)
    have hswapped : storeLoadSwap.ControlChain [⟨0⟩, ⟨5⟩, ⟨6⟩, ⟨7⟩] ⟨7⟩ :=
      .next hloaded (by decide +kernel)
    have hbefore : storeLoadSwap.ControlChain [⟨0⟩, ⟨5⟩, ⟨6⟩, ⟨7⟩, ⟨8⟩] ⟨8⟩ :=
      .next hswapped (by decide +kernel)
    obtain ⟨last, hlast, -, hchain, -⟩ := hchains _ _ hbefore (by decide +kernel)
    have hreturn : block ⟨8⟩ = [⟨8⟩] := hkept _ (by decide +kernel)
    have hentry : block ⟨0⟩ = [⟨0⟩] := hkept _ (by decide +kernel)
    refine ⟨stats, g', block, hrun, ?_, ?_, ?_, ?_⟩
    · rw [(hkinds _ _ (hnode ⟨5⟩ (by decide +kernel)) (by decide +kernel)).1]
      decide +kernel
    · rw [(hkinds _ _ (hnode ⟨6⟩ (by decide +kernel)) (by decide +kernel)).1]
      decide +kernel
    · rw [(hkinds _ _ (hnode ⟨7⟩ (by decide +kernel)) (by decide +kernel)).1]
      decide +kernel
    · rw [hreturn] at hlast
      cases hlast
      simpa [hreturn, hentry] using hchain
  · obtain ⟨stats, g', -, block, hrun, -, -, -, hkinds, -, -⟩ :=
      Reachable.run_splices_control reachable_storeLoadSwap .forTesting
    refine ⟨stats, g', block, hrun, ?_⟩
    rw [(hkinds _ _ (hnode ⟨7⟩ (by decide +kernel)) (by decide +kernel)).1]
    decide +kernel

end Graph

end SeaOfNodes
