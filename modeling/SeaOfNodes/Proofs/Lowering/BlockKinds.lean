import SeaOfNodes.Proofs.Lowering.Plan

/-!
# The kinds of new nodes

Which kinds of nodes an expansion consists of depends on the kind of the access and on the
configuration alone.  `LoweringConfig.blockKinds` lists those of the fixed nodes, in control order,
and `LoweringConfig.expansionKinds` those of all new nodes, in the order of their ids.
**`kinds_nodes`** says that the nodes of every plan are of these kinds.  One of them is the machine
access, of the kind that `LoweringConfig.machineKind` names.
-/

namespace SeaOfNodes

namespace LoweringConfig

variable (config : LoweringConfig)

/-- The fixed nodes that take the place of a node of the given kind, in control order.  Where a
fence stands depends on the order of the access, on whether the machine has a total store order, and
on how it swaps. -/
def blockKinds (locations : LocationUniverse) : NodeKind → List NodeKind
  | .write access initialization =>
    (if access.nullCheck then [.nullCheck] else []) ++
    (config.preBarrier access.barrier initialization).toList.map .writeBarrier ++
    (if access.order = .volatile ∧ config.platform.isTso = false then [.memoryBarrier .release]
      else []) ++
    [.rawStore ⟨access.location, locations.accessKind access.location, access.order⟩] ++
    (config.postBarrier access.barrier).toList.map .writeBarrier ++
    (if access.order = .volatile then [.memoryBarrier .full] else [])
  | .read access =>
    (if access.nullCheck then [.nullCheck] else []) ++
    [.rawLoad ⟨access.location, locations.accessKind access.location, access.order⟩] ++
    (if access.order = .volatile ∧ config.platform.isTso = false then [.memoryBarrier .acquire]
      else [])
  | .compareAndSwap valueKind location =>
    (if config.platform.swapStrategy = .loadLinkedStoreConditional then [.memoryBarrier .release]
      else []) ++
    [.atomicCas valueKind location config.platform.swapStrategy] ++
    (if config.platform.swapStrategy = .loadLinkedStoreConditional then [.memoryBarrier .full]
      else [])
  | _ => []

/-- All nodes that take the place of a node of the given kind, in the order of their ids. -/
def expansionKinds (locations : LocationUniverse) (kind : NodeKind) : List NodeKind :=
  match kind with
  | .compareAndSwap .. => .offsetAddress :: config.blockKinds locations kind
  | _ => config.blockKinds locations kind

/-- The machine access that takes the place of an access of the given kind. -/
def machineKind (locations : LocationUniverse) : NodeKind → NodeKind
  | .read access =>
    .rawLoad ⟨access.location, locations.accessKind access.location, access.order⟩
  | .write access _ =>
    .rawStore ⟨access.location, locations.accessKind access.location, access.order⟩
  | .compareAndSwap valueKind location =>
    .atomicCas valueKind location config.platform.swapStrategy
  | kind => kind

/-- What holds of six kinds holds of every fixed node of an expansion. -/
theorem forall_blockKinds (locations : LocationUniverse) {P : NodeKind → Prop}
    (hcheck : P .nullCheck) (hfence : ∀ fence, P (.memoryBarrier fence))
    (hbarrier : ∀ barrier, P (.writeBarrier barrier)) (hload : ∀ access, P (.rawLoad access))
    (hstore : ∀ access, P (.rawStore access))
    (hswap : ∀ valueKind location strategy, P (.atomicCas valueKind location strategy))
    (kind : NodeKind) : ∀ other ∈ config.blockKinds locations kind, P other := by
  have hif : ∀ {condition : Prop} [Decidable condition] {k : NodeKind}, P k →
      ∀ other ∈ (if condition then [k] else []), P other := by
    intro condition _ k hk other hmem
    split at hmem
    · exact List.mem_singleton.mp hmem ▸ hk
    · cases hmem
  have hone : ∀ {k : NodeKind}, P k → ∀ other ∈ [k], P other := by
    intro k hk other hmem
    exact List.mem_singleton.mp hmem ▸ hk
  have hbarriers : ∀ {barrier : Option WriteBarrier},
      ∀ other ∈ barrier.toList.map NodeKind.writeBarrier, P other := by
    intro barrier other hmem
    obtain ⟨b, -, rfl⟩ := List.mem_map.mp hmem
    exact hbarrier b
  cases kind with
  | read access =>
      simp only [blockKinds, List.forall_mem_append]
      exact ⟨⟨hif hcheck, hone (hload _)⟩, hif (hfence _)⟩
  | write access initialization =>
      simp only [blockKinds, List.forall_mem_append]
      exact ⟨⟨⟨⟨⟨hif hcheck, hbarriers⟩, hif (hfence _)⟩, hone (hstore _)⟩, hbarriers⟩,
        hif (hfence _)⟩
  | compareAndSwap valueKind location =>
      simp only [blockKinds, List.forall_mem_append]
      exact ⟨⟨hif (hfence _), hone (hswap _ _ _)⟩, hif (hfence _)⟩
  | _ =>
      intro other hmem
      cases hmem

/-- The nodes of a block are fixed. -/
theorem isFixed_of_mem_blockKinds {locations : LocationUniverse} {kind other : NodeKind}
    (h : other ∈ config.blockKinds locations kind) : other.isFixed = true :=
  config.forall_blockKinds locations (P := fun other => other.isFixed = true) rfl
    (fun _ => rfl) (fun _ => rfl) (fun _ => rfl) (fun _ => rfl) (fun _ _ _ => rfl) kind other h

/-- The nodes of a block are no accesses. -/
theorem isLowerable_of_mem_blockKinds {locations : LocationUniverse} {kind other : NodeKind}
    (h : other ∈ config.blockKinds locations kind) : other.isLowerable = false :=
  config.forall_blockKinds locations (P := fun other => other.isLowerable = false) rfl
    (fun _ => rfl) (fun _ => rfl) (fun _ => rfl) (fun _ => rfl) (fun _ _ _ => rfl) kind other h

/-- **No new node is to be lowered.** -/
theorem isLowerable_of_mem_expansionKinds {locations : LocationUniverse} {kind other : NodeKind}
    (h : other ∈ config.expansionKinds locations kind) : other.isLowerable = false := by
  have hblock : other ∈ config.blockKinds locations kind → other.isLowerable = false :=
    config.isLowerable_of_mem_blockKinds
  cases kind with
  | compareAndSwap valueKind location =>
      rcases List.mem_cons.mp h with rfl | hmem
      · rfl
      · exact hblock hmem
  | _ => exact hblock h

/-- The steps of a plan are of the kinds that are listed. -/
theorem kinds_steps (locations : LocationUniverse) (object : Option NodeId) (base : NodeId)
    (view : AccessView) :
    (config.plan locations object base view).block.steps.map Step.kind =
      config.blockKinds locations view.kind := by
  cases view <;>
    simp only [plan, AccessView.kind, WriteView.kind, SwapView.kind, blockKinds, Block.steps,
      readBlock, writeBlock, swapBlock, fencesSwap, List.map_append, List.map_cons, List.map_map,
      map_stepIf, MemoryOrder.isVolatile_iff, Bool.and_eq_true, Bool.not_eq_true',
      decide_eq_true_eq, Function.comp_def, Step.nullCheck, Step.fence, Step.barrier, List.append_assoc,
      List.cons_append, List.nil_append]

/-- The steps of a plan are no accesses. -/
theorem isLowerable_of_mem_steps (locations : LocationUniverse) (object : Option NodeId)
    (base : NodeId) (view : AccessView) :
    ∀ step ∈ (config.plan locations object base view).block.steps,
      step.kind.isLowerable = false := by
  intro step h
  have hkind := List.mem_map_of_mem (f := Step.kind) h
  rw [kinds_steps] at hkind
  exact config.isLowerable_of_mem_blockKinds hkind

theorem kind_access (locations : LocationUniverse) (object : Option NodeId) (base : NodeId)
    (view : AccessView) :
    (config.plan locations object base view).block.access.kind =
      config.machineKind locations view.kind := by
  cases view <;> rfl

theorem kinds_lead (locations : LocationUniverse) (object : Option NodeId) (base : NodeId)
    (view : AccessView) :
    (config.plan locations object base view).lead.map Node.kind ++
        config.blockKinds locations view.kind =
      config.expansionKinds locations view.kind := by
  cases view <;> rfl

end LoweringConfig

namespace Step

theorem kinds_chain (control first : NodeId) (steps : List Step) :
    (chain control first steps).map Node.kind = steps.map Step.kind := by
  induction steps generalizing control first with
  | nil => rfl
  | cons step steps ih => rw [chain, List.map_cons, ih, List.map_cons]; rfl

end Step

namespace LoweringConfig

/-- **The kinds of the new nodes depend on the kind of the access alone.** -/
theorem kinds_nodes {config : LoweringConfig} {g : Graph} {base id : NodeId} {plan : Plan}
    {node : Node} (hplan : config.planOf g base id = some plan) (hnode : g.liveNode? id = some node)
    (base' : NodeId) :
    (plan.nodes base').map Node.kind = config.expansionKinds g.locations node.kind := by
  obtain ⟨view, hview, rfl⟩ := Option.map_eq_some_iff.mp hplan
  rw [Plan.nodes, List.map_append, Step.kinds_chain, kinds_steps, kinds_lead,
    Graph.kind_of_access? hview hnode]

/-- The kind of the machine access depends on the kind of the access alone. -/
theorem kind_access_of_planOf {config : LoweringConfig} {g : Graph} {base id : NodeId} {plan : Plan}
    {node : Node} (hplan : config.planOf g base id = some plan)
    (hnode : g.liveNode? id = some node) :
    plan.block.access.kind = config.machineKind g.locations node.kind := by
  obtain ⟨view, hview, rfl⟩ := Option.map_eq_some_iff.mp hplan
  rw [kind_access, Graph.kind_of_access? hview hnode]

/-- The kinds of the fixed nodes depend on the kind of the access alone. -/
theorem kinds_steps_of_planOf {config : LoweringConfig} {g : Graph} {base id : NodeId} {plan : Plan}
    {node : Node} (hplan : config.planOf g base id = some plan)
    (hnode : g.liveNode? id = some node) :
    plan.block.steps.map Step.kind = config.blockKinds g.locations node.kind := by
  obtain ⟨view, hview, rfl⟩ := Option.map_eq_some_iff.mp hplan
  rw [kinds_steps, Graph.kind_of_access? hview hnode]

end LoweringConfig

end SeaOfNodes
