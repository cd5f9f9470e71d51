import SeaOfNodes.Proofs.Lowering.Census

/-!
# The pass is total and complete

Along any schedule the pass lowers every node that it lists, and its answer can be computed from
the graph before it (**`WellFormed.run_runPass`**).  For the traversals of the configuration this
is **`Reachable.run_complete`**: in every graph that a run leads to, and for every configuration,
the pass succeeds, lowers all that is to be lowered, leaves everything else in place, reports what
it did, and has nothing to do when it is run again.
-/

namespace SeaOfNodes

theorem ToolM.run_toEdit_of_ok {α : Type} {m : ToolM Unit α} {g g' : Graph} {a : α}
    (h : m.run (g, ()) = .ok a (g', ())) : m.toEdit.run g = .ok a g' := by
  show ToolM.toEdit m g = _
  unfold ToolM.toEdit
  rw [h]

/-- A computation of a tool leaves the same graph as an edit. -/
theorem ToolM.after_toEdit {α : Type} (m : ToolM Unit α) (g : Graph) :
    m.toEdit.after g = m.after g () := by
  unfold Edit.after EStateM.run ToolM.toEdit ToolM.after
  cases m.run (g, ()) <;> rfl

/-- What the pass answers when it has lowered the listed nodes of `g` and left `g'`. -/
def LoweringConfig.report (config : LoweringConfig) (g : Graph) (ids : List NodeId) (g' : Graph) :
    LoweringStats :=
  { ({ initialLive := g.liveCount } : LoweringStats).tally (g.kinds ids)
      ((g.kinds ids).flatMap (config.expansionKinds g.locations)) with
    finalLive := g'.liveCount }

namespace Graph

variable {g g' : Graph} {config : LoweringConfig} {ids : List NodeId} {p : Placement} {id : NodeId}
  {node : Node}

/-- A pass succeeds when its nodes are lowered and the graph that they leave is verified. -/
theorem run_runPass_of_ok {order : Graph → List NodeId} {stats : LoweringStats}
    (hrun : (lowerAlong config.tool { initialLive := g.liveCount } (order g)).run (g, ()) =
      .ok stats (g', ())) (hverify : g'.verify = .ok ()) :
    (runPass config order config.tool).run (g, ()) =
      .ok { stats with finalLive := g'.liveCount } (g', ()) := by
  have hask : (Edit.ask Graph.verify).run g' = .ok () g' := Edit.run_ask_of_ok hverify
  have hgraph : ∀ g : Graph, (ToolM.graph : ToolM Unit Graph).run (g, ()) = .ok g (g, ()) :=
    fun _ => rfl
  unfold runPass
  rw [run_bind_of_ok (hgraph g), run_bind_of_ok hrun]
  split
  · rw [run_bind_of_ok (Edit.run_inTool hask ()), run_bind_of_ok (hgraph g')]
    rfl
  · rw [run_bind_of_ok (hgraph g')]
    rfl

/-- **The pass succeeds along every schedule.** -/
theorem WellFormed.run_runPass (wf : g.WellFormed) (config : LoweringConfig)
    (order : Graph → List NodeId) (h : g.Schedules (order g)) :
    ∃ p g', Lowered config g (order g) p g' ∧
      ((order g).mapM (lowerNode config.tool)).run (g, ()) =
        .ok ((order g).map p.replacement) (g', ()) ∧
      (runPass config order config.tool).run (g, ()) =
        .ok (config.report g (order g) g') (g', ()) := by
  have hnil : Lowered config g [] default g := .nil wf default
  obtain ⟨p, g', hlowered, -, hmapM, hrun⟩ := hnil.run_lowerAlong wf { initialLive := g.liveCount }
    (List.nil_append (order g) ▸ h.nodup) fun _ => h.mem_iff.mp
  exact ⟨p, g', hlowered, hmapM, run_runPass_of_ok hrun hlowered.wellFormed.verify⟩

/-- **The pass of a configuration succeeds.** -/
theorem WellFormed.run_config (wf : g.WellFormed) (config : LoweringConfig) :
    ∃ p g', Lowered config g (config.traversal.order g) p g' ∧
      ((config.traversal.order g).mapM (lowerNode config.tool)).run (g, ()) =
        .ok ((config.traversal.order g).map p.replacement) (g', ()) ∧
      config.run.run g = .ok (config.report g (config.traversal.order g) g') g' := by
  obtain ⟨p, g', hlowered, hmapM, hrun⟩ :=
    wf.run_runPass config _ (config.traversal.schedules_order g)
  exact ⟨p, g', hlowered, hmapM, ToolM.run_toEdit_of_ok hrun⟩

/-! ## What is left -/

namespace Lowered

/-- What was to be lowered is replaced. -/
theorem state_of_lowered (h : Lowered config g ids p g') (hid : id ∈ ids) :
    g'.state? id = some .replaced := by
  obtain ⟨node, hnode, -, -⟩ := isLowerable_iff.mp (h.lowerable id hid)
  unfold state?
  rw [h.lowered id hid, hnode]
  rfl

/-- No new node is to be lowered. -/
theorem kinds_new (h : Lowered config g ids p g') (hx : id ∈ ids.flatMap p.block)
    (hnode : g'.node? id = some node) : node.kind.isLowerable = false := by
  have hmem : node.kind ∈ (g.kinds ids).flatMap (config.expansionKinds g.locations) := by
    rw [← h.kinds_blocks fun _ hid => hid]
    exact mem_kinds.mpr ⟨id, hx, node, hnode, rfl⟩
  obtain ⟨kind, -, hkind⟩ := List.mem_flatMap.mp hmem
  exact config.isLowerable_of_mem_expansionKinds hkind

/-- **Nothing is left to be lowered.** -/
theorem isLowerable_eq_false (h : Lowered config g ids p g') (hschedule : g.Schedules ids)
    (id : NodeId) : g'.isLowerable id = false := by
  rw [Bool.eq_false_iff]
  intro hlowerable
  obtain ⟨node, hnode, halive, hkind⟩ := isLowerable_iff.mp hlowerable
  by_cases hold : id.index < g.size
  · -- an old node that is still attached was not listed, and the schedule lists all lowerable ones
    have hlive := h.isAlive_old hschedule hold
    rw [isAlive_of_isLowerable hlowerable, eq_comm, Bool.and_eq_true, Bool.not_eq_true'] at hlive
    have hmem : id ∉ ids := fun hmem => by simp [hschedule.mem_iff.mp hmem] at hlive
    obtain ⟨found, hfound, hfoundAlive⟩ := isAlive_iff_exists.mp hlive.1
    rw [h.old id hmem hold, hfound] at hnode
    cases hnode
    rw [Node.kind_redirect] at hkind
    rw [isLowerable_iff.mpr ⟨found, hfound, hfoundAlive, hkind⟩] at hlive
    cases hlive.2
  · have hnew := h.mem_blocks_iff.mpr ⟨Nat.le_of_not_lt hold, lt_size_of_node? hnode⟩
    rw [h.kinds_new hnew hnode] at hkind
    cases hkind

/-- **Every other attached node stays in place**, with all that it is. -/
theorem exists_kept (h : Lowered config g ids p g') (hnode : g.node? id = some node)
    (halive : node.isAlive = true) (hkind : node.kind.isLowerable = false) :
    ∃ node', g'.node? id = some node' ∧ node'.isAlive = true ∧ node'.kind = node.kind ∧
      node'.stamp = node.stamp ∧ node'.flags = node.flags ∧ node'.bci = node.bci := by
  have hmem : id ∉ ids := h.not_mem_of_kind hnode hkind
  refine ⟨node.redirect (p.successor ids), ?_, ?_, ?_, ?_, ?_, ?_⟩
  · rw [h.old id hmem (lt_size_of_node? hnode), hnode]
    rfl
  · rw [Node.isAlive_redirect, halive]
  · exact Node.kind_redirect _ _
  · exact Node.stamp_redirect _ _
  · exact Node.flags_redirect _ _
  · exact Node.bci_redirect _ _

end Lowered

/-! ## What is reported -/

/-- **The report of a pass**, in terms of the graphs before and after it. -/
theorem Lowered.report_eq (h : Lowered config g ids p g') (hschedule : g.Schedules ids) :
    config.report g ids g' = {
      reads := g.liveNodes.countP fun entry => entry.2.kind.isRead
      writes := g.liveNodes.countP fun entry => entry.2.kind.isWrite
      compareAndSwaps := g.liveNodes.countP fun entry => entry.2.kind.isCompareAndSwap
      nodesCreated := g'.liveNodes.countP fun entry => decide (g.size ≤ entry.1.index)
      fences := g'.liveNodes.countP fun entry =>
        decide (g.size ≤ entry.1.index) && entry.2.kind.isMemoryBarrier
      barriers := g'.liveNodes.countP fun entry =>
        decide (g.size ≤ entry.1.index) && entry.2.kind.isWriteBarrier
      initialLive := g.liveCount
      finalLive := g'.liveCount } := by
  have hlowerable : ∀ kind : NodeKind,
      (kind.isRead = true ∨ kind.isWrite = true ∨ kind.isCompareAndSwap = true) →
        kind.isLowerable = true := by
    intro kind hkind
    cases kind <;> simp_all [NodeKind.isRead, NodeKind.isWrite, NodeKind.isCompareAndSwap,
      NodeKind.isLowerable]
  -- the new nodes are counted by their kinds, and all of them as those of any kind
  have hcreated := h.countP_created fun _ => true
  rw [List.countP_true] at hcreated
  simp only [Bool.and_true] at hcreated
  rw [LoweringConfig.report, LoweringStats.tally, hcreated, h.countP_created, h.countP_created,
    hschedule.countP_kinds fun kind hkind => hlowerable kind (.inl hkind),
    hschedule.countP_kinds fun kind hkind => hlowerable kind (.inr (.inl hkind)),
    hschedule.countP_kinds fun kind hkind => hlowerable kind (.inr (.inr hkind))]
  simp only [Nat.zero_add]

/-- As many nodes are reported as lowered as were listed. -/
theorem Lowered.lowered_report (h : Lowered config g ids p g') :
    (config.report g ids g').lowered = ids.length := by
  have hkinds : ∀ kind ∈ g.kinds ids, kind.isLowerable = true := by
    intro kind hkind
    obtain ⟨id, hid, node, hnode, rfl⟩ := mem_kinds.mp hkind
    obtain ⟨found, hfound, -, hlowerable⟩ := isLowerable_iff.mp (h.lowerable id hid)
    cases hnode.symm.trans hfound
    exact hlowerable
  have hlength : (g.kinds ids).length = ids.length := length_kinds fun id hid => by
    obtain ⟨node, hnode, -⟩ := isLowerable_iff.mp (h.lowerable id hid)
    exact ⟨node, hnode⟩
  have hlowered := LoweringStats.lowered_tally { initialLive := g.liveCount } hkinds
    ((g.kinds ids).flatMap (config.expansionKinds g.locations))
  rw [hlength] at hlowered
  exact hlowered.trans (Nat.zero_add _)

/-- As many nodes are reported as created as there are new ones. -/
theorem Lowered.nodesCreated_report (h : Lowered config g ids p g') :
    (config.report g ids g').nodesCreated = (ids.flatMap p.block).length := by
  have hlength : (g'.kinds (ids.flatMap p.block)).length = (ids.flatMap p.block).length :=
    length_kinds fun x hx => by
      obtain ⟨node, hnode, -⟩ := isAlive_iff_exists.mp (h.isAlive_new hx)
      exact ⟨node, hnode⟩
  rw [h.kinds_blocks fun _ hid => hid] at hlength
  exact (Nat.zero_add _).trans hlength

/-- **The balance of a pass.** -/
theorem Lowered.balance (h : Lowered config g ids p g') (hschedule : g.Schedules ids) :
    (config.report g ids g').lowered ≤ (config.report g ids g').initialLive ∧
      (config.report g ids g').finalLive =
        (config.report g ids g').initialLive - (config.report g ids g').lowered +
          (config.report g ids g').nodesCreated := by
  have hadd := h.liveCount_add hschedule
  have hle : ids.length ≤ g.liveCount := by
    rw [hschedule.length_eq, g.liveCount_split]
    exact Nat.le_add_left _ _
  rw [h.lowered_report, h.nodesCreated_report]
  refine ⟨hle, ?_⟩
  show g'.liveCount = g.liveCount - ids.length + _
  omega

/-! ## The pass -/

/-- Where nothing is to be lowered the pass changes nothing. -/
theorem WellFormed.run_config_of_lowered (wf : g.WellFormed)
    (h : ∀ id, g.isLowerable id = false) (config : LoweringConfig) :
    ∃ stats, config.run.run g = .ok stats g ∧ stats.lowered = 0 := by
  have hnil : config.traversal.order g = [] := List.eq_nil_iff_forall_not_mem.mpr fun id hid => by
    have hlowerable := (config.traversal.schedules_order g).mem_iff.mp hid
    rw [h] at hlowerable
    cases hlowerable
  have halong : (lowerAlong config.tool { initialLive := g.liveCount }
      (config.traversal.order g)).run (g, ()) = .ok { initialLive := g.liveCount } (g, ()) := by
    rw [hnil]
    rfl
  exact ⟨_, ToolM.run_toEdit_of_ok (run_runPass_of_ok halong wf.verify), rfl⟩

/-- The pass leads from one graph to another like any operation. -/
theorem Reachable.after_run (h : g.Reachable) (config : LoweringConfig) :
    (config.run.after g).Reachable := by
  unfold LoweringConfig.run
  rw [ToolM.after_toEdit]
  exact .pass h (fun id g memory => config.reaches_tool id g memory) config _ ()

/-- **The pass is total and complete.**  In every graph that a run leads to, and for every
configuration, it succeeds.  Afterwards

* every attached read, write and compare-and-swap is replaced, and nothing is left to be lowered;
* every other attached node is still attached, with its kind, stamp, flags and bytecode index;
* verification passes;
* the report counts the reads, writes and compare-and-swaps that there were, and the nodes, fences
  and barriers among the attached nodes that are new; and it balances;
* the pass, run again for whatever configuration, lowers nothing and leaves the graph as it is. -/
theorem Reachable.run_complete (h : g.Reachable) (config : LoweringConfig) :
    ∃ stats g', config.run.run g = .ok stats g' ∧
      (∀ id node, g.node? id = some node → node.isAlive = true → node.kind.isLowerable = true →
        g'.state? id = some .replaced) ∧
      (∀ id, g'.isLowerable id = false) ∧
      (∀ id node, g.node? id = some node → node.isAlive = true → node.kind.isLowerable = false →
        ∃ node', g'.node? id = some node' ∧ node'.isAlive = true ∧ node'.kind = node.kind ∧
          node'.stamp = node.stamp ∧ node'.flags = node.flags ∧ node'.bci = node.bci) ∧
      g'.verify = .ok () ∧
      stats = {
        reads := g.liveNodes.countP fun entry => entry.2.kind.isRead
        writes := g.liveNodes.countP fun entry => entry.2.kind.isWrite
        compareAndSwaps := g.liveNodes.countP fun entry => entry.2.kind.isCompareAndSwap
        nodesCreated := g'.liveNodes.countP fun entry => decide (g.size ≤ entry.1.index)
        fences := g'.liveNodes.countP fun entry =>
          decide (g.size ≤ entry.1.index) && entry.2.kind.isMemoryBarrier
        barriers := g'.liveNodes.countP fun entry =>
          decide (g.size ≤ entry.1.index) && entry.2.kind.isWriteBarrier
        initialLive := g.liveCount
        finalLive := g'.liveCount } ∧
      stats.lowered ≤ stats.initialLive ∧
      stats.finalLive = stats.initialLive - stats.lowered + stats.nodesCreated ∧
      ∀ config' : LoweringConfig,
        ∃ again, config'.run.run g' = .ok again g' ∧ again.lowered = 0 := by
  obtain ⟨p, g', hlowered, -, hrun⟩ := h.wellFormed.run_config config
  have hschedule := config.traversal.schedules_order g
  obtain ⟨hle, hfinal⟩ := hlowered.balance hschedule
  have hnone := hlowered.isLowerable_eq_false hschedule
  refine ⟨_, g', hrun, ?_, hnone, fun id node => hlowered.exists_kept, hlowered.wellFormed.verify,
    hlowered.report_eq hschedule, hle, hfinal, hlowered.wellFormed.run_config_of_lowered hnone⟩
  intro id node hnode halive hkind
  exact hlowered.state_of_lowered
    (hschedule.mem_iff.mpr (isLowerable_iff.mpr ⟨node, hnode, halive, hkind⟩))

/-- The store and the load are lowered together, whatever the target. -/
theorem run_complete_storeThenLoad :
    storeThenLoad.Reachable ∧
      ∃ stats g', LoweringConfig.forTesting.run.run storeThenLoad = .ok stats g' ∧
        g'.verify = .ok () ∧ stats.reads = 1 ∧ stats.writes = 1 := by
  obtain ⟨stats, g', hrun, -, -, -, hverify, hstats, -⟩ :=
    Reachable.run_complete reachable_storeThenLoad .forTesting
  have hreads : (storeThenLoad.liveNodes.countP fun entry => entry.2.kind.isRead) = 1 := by
    decide +kernel
  have hwrites : (storeThenLoad.liveNodes.countP fun entry => entry.2.kind.isWrite) = 1 := by
    decide +kernel
  exact ⟨reachable_storeThenLoad, stats, g', hrun, hverify, hstats ▸ hreads, hstats ▸ hwrites⟩

end Graph

end SeaOfNodes
