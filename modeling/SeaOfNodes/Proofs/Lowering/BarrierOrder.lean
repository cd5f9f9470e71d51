import SeaOfNodes.Proofs.Lowering.Schedule
import SeaOfNodes.Proofs.Lowering.Splice
import SeaOfNodes.Proofs.Lowering.Tally
import SeaOfNodes.Proofs.Memory.KeptOrder

/-!
# The order of a store and its barriers

The expansion of a write surrounds the machine store by other nodes, in control order: a barrier
that logs the previous value and a fence before it, a barrier that marks the card and a fence after
it.  This module is about whether that order survives once it is left to memory.

**`Reachable.barriers_ordered_iff`**: the fences keep their order against the store, and the
barriers of the collector do not.  Each of them may change places with the store, in either
direction and whatever the oracle answers; so the barriers stay on their side of the store exactly
if there are none.

### What is load-bearing

Nothing here depends on the graph around the expansion.  Memory orders what has a footprint, and a
footprint is a matter of the kind of a node: a fence kills every location, and a barrier of the
collector kills none and accesses none, although it has side effects
(`NodeKind.hasSideEffect`) and looks at the address of the store.  What is needed about the
expansion is only which kinds of nodes occur in it, and that they are attached
(`Splices.exists_hasKind_iff`).
-/

namespace SeaOfNodes

/-- A store of the machine. -/
def NodeKind.isRawStore : NodeKind → Bool
  | .rawStore _ => true
  | _ => false

/-- The expansion of a write has a barrier exactly if one is selected before or after the store. -/
theorem LoweringConfig.exists_isWriteBarrier_iff (config : LoweringConfig)
    (locations : LocationUniverse) (access : Access) (initialization : Bool) :
    (∃ kind ∈ config.expansionKinds locations (.write access initialization),
      kind.isWriteBarrier = true) ↔
      ¬ (config.preBarrier access.barrier initialization = none ∧
        config.postBarrier access.barrier = none) := by
  have hother : ∀ (condition : Prop) [Decidable condition] {kind : NodeKind},
      kind.isWriteBarrier = false →
      ((∃ other ∈ (if condition then [kind] else []), other.isWriteBarrier = true) ↔ False) := by
    intro condition _ kind hkind
    split <;> simp [hkind]
  have hbarrier : ∀ {barrier : Option WriteBarrier},
      (∃ other ∈ barrier.toList.map NodeKind.writeBarrier, other.isWriteBarrier = true) ↔
        barrier ≠ none := by
    intro barrier
    cases barrier <;> simp [NodeKind.isWriteBarrier]
  have hstore : ∀ {raw : RawAccess},
      (∃ other ∈ [NodeKind.rawStore raw], other.isWriteBarrier = true) ↔ False := by
    simp [NodeKind.isWriteBarrier]
  -- only two of the six parts of the block can hold a barrier
  have hcheck := @hother (access.nullCheck = true) _ .nullCheck rfl
  have hfence := fun (condition : Prop) [Decidable condition] fence =>
    @hother condition _ (.memoryBarrier fence) rfl
  show (∃ kind ∈ config.blockKinds locations (.write access initialization), _) ↔ _
  simp only [blockKinds]
  simp only [List.mem_append, or_and_right, exists_or, hbarrier, hstore, hcheck, hfence, false_or,
    or_false]
  exact not_and_or.symm

namespace Graph

variable {g g' : Graph} {config : LoweringConfig} {id a b s : NodeId} {node : Node} {plan : Plan}
  {kinds : NodeKind → Bool}

/-! ## The nodes of an expansion -/

theorem hasKind_iff_of_liveNode? (hlive : g.liveNode? a = some node) :
    g.HasKind kinds a ↔ kinds node.kind = true := by
  simp only [HasKind, (liveNode?_eq_some_iff.mp hlive).1, Option.some.injEq, exists_eq_left']

/-- **Which kinds of nodes an expansion consists of.** -/
theorem Splices.exists_hasKind_iff (h : g.Splices id plan g')
    (hplan : config.planOf g g.nextId id = some plan) (hlive : g.liveNode? id = some node) :
    (∃ n ∈ (plan.replacement g.nextId).nodes, g'.HasKind kinds n) ↔
      ∃ kind ∈ config.expansionKinds g.locations node.kind, kinds kind = true := by
  rw [← LoweringConfig.kinds_nodes hplan hlive g.nextId]
  simp only [List.mem_map, exists_exists_and_eq_and]
  refine Iff.trans (exists_congr fun n => and_congr_right fun hlisted => ?_)
    (h.exists_listed_iff (P := fun node => kinds node.kind = true))
  obtain ⟨new, -, hlive'⟩ := h.exists_of_listed hlisted
  rw [hasKind_iff_of_liveNode? hlive']
  simp only [hlive', Option.some.injEq, exists_eq_left']

theorem Splices.isAlive_of_listed (h : g.Splices id plan g')
    (hlisted : a ∈ (plan.replacement g.nextId).nodes) : g'.isAlive a = true := by
  obtain ⟨new, -, hlive⟩ := h.exists_of_listed hlisted
  obtain ⟨hnode, halive⟩ := liveNode?_eq_some_iff.mp hlive
  exact isAlive_iff_exists.mpr ⟨_, hnode, halive⟩

/-! ## Barriers, fences and stores -/

theorem HasKind.touches_of_isRawStore (h : g.HasKind NodeKind.isRawStore s) : g.Touches s := by
  obtain ⟨node, hnode, hkind⟩ := h
  rw [touches_iff_of_node? hnode]
  cases hnode' : node.kind with
  | rawStore => exact .inl rfl
  | _ =>
      rw [hnode'] at hkind
      cases hkind

theorem HasKind.not_touches_of_isWriteBarrier (h : g.HasKind NodeKind.isWriteBarrier b) :
    ¬ g.Touches b := by
  obtain ⟨node, hnode, hkind⟩ := h
  rw [touches_iff_of_node? hnode]
  cases hnode' : node.kind with
  | writeBarrier => rintro (h | h) <;> cases h
  | _ =>
      rw [hnode'] at hkind
      cases hkind

theorem HasKind.killsEverything_of_isMemoryBarrier (h : g.HasKind NodeKind.isMemoryBarrier b) :
    g.HasKind NodeKind.killsEverything b := by
  obtain ⟨node, hnode, hkind⟩ := h
  refine ⟨node, hnode, ?_⟩
  cases hnode' : node.kind with
  | memoryBarrier => rfl
  | _ =>
      rw [hnode'] at hkind
      cases hkind

/-- **A barrier of the collector may change places with whatever touches memory.** -/
theorem canReorder_writeBarrier (hb : g.isAlive b = true) (hs : g.isAlive s = true)
    (barrier : g.HasKind NodeKind.isWriteBarrier b) (touches : g.Touches s)
    (oracle : AliasOracle) :
    g.canReorder b s oracle = .ok true ∧ g.canReorder s b oracle = .ok true := by
  have huntouched := barrier.not_touches_of_isWriteBarrier
  refine canReorder_of_not_touches hb hs ?_ huntouched oracle
  rintro rfl
  exact huntouched touches

/-- A fence keeps its order against a store. -/
theorem Balanced.keepsOrder_memoryBarrier (balanced : g.Balanced) (hb : g.isAlive b = true)
    (hs : g.isAlive s = true) (fence : g.HasKind NodeKind.isMemoryBarrier b)
    (store : g.HasKind NodeKind.isRawStore s) : g.KeepsOrder .identity b s := by
  have hne : b ≠ s := by
    rintro rfl
    obtain ⟨node, hnode, hfence⟩ := fence
    obtain ⟨_, hnode', hstore⟩ := store
    cases hnode.symm.trans hnode'
    cases hkind : node.kind with
    | memoryBarrier =>
        rw [hkind] at hstore
        cases hstore
    | _ =>
        rw [hkind] at hfence
        cases hfence
  exact balanced.keepsOrder_of_killsEverything hb hs hne fence.killsEverything_of_isMemoryBarrier
    store.touches_of_isRawStore

/-! ## Expansions of writes -/

variable {access : Access} {initialization : Bool}

/-- The expansion of a write has a store, and a barrier if one is selected. -/
theorem Splices.exists_of_write (h : g.Splices id plan g')
    (hplan : config.planOf g g.nextId id = some plan) (hlive : g.liveNode? id = some node)
    (hkind : node.kind = .write access initialization) :
    (∃ s ∈ (plan.replacement g.nextId).nodes, g'.HasKind NodeKind.isRawStore s) ∧
      ((∃ b ∈ (plan.replacement g.nextId).nodes, g'.HasKind NodeKind.isWriteBarrier b) ↔
        ¬ (config.preBarrier access.barrier initialization = none ∧
          config.postBarrier access.barrier = none)) := by
  constructor
  · obtain ⟨control, -, hlisted, hstore⟩ := h.exists_access
    refine ⟨_, hlisted, (hasKind_iff_of_liveNode? hstore).mpr ?_⟩
    show plan.block.access.kind.isRawStore = true
    rw [LoweringConfig.kind_access_of_planOf hplan hlive, hkind]
    rfl
  · rw [h.exists_hasKind_iff hplan hlive, hkind]
    exact config.exists_isWriteBarrier_iff _ _ _

/-- **Which nodes of an expansion stay on their side of the store.**  From every graph that a run
leads to and for every configuration, lowering an attached write succeeds, and its expansion has a
store.

* Every fence of the expansion keeps its order against the store, under the oracle of identities.
* Every barrier of the collector may change places with the store, in either direction and under
  every oracle.
* So all barriers keep their order exactly if none is selected. -/
theorem Reachable.barriers_ordered_iff (h : g.Reachable) (config : LoweringConfig)
    (hwrite : (g.liveNode? id).map Node.kind = some (.write access initialization)) :
    ∃ r g', (lowerNode config.tool id).run (g, ()) = .ok r (g', ()) ∧
      (∃ s ∈ r.nodes, g'.HasKind NodeKind.isRawStore s) ∧
      (∀ s ∈ r.nodes, g'.HasKind NodeKind.isRawStore s → ∀ b ∈ r.nodes,
        (g'.HasKind NodeKind.isMemoryBarrier b → g'.KeepsOrder .identity b s) ∧
        (g'.HasKind NodeKind.isWriteBarrier b → ∀ oracle,
          g'.canReorder b s oracle = .ok true ∧ g'.canReorder s b oracle = .ok true)) ∧
      ((∀ s ∈ r.nodes, g'.HasKind NodeKind.isRawStore s → ∀ b ∈ r.nodes,
          g'.HasKind NodeKind.isWriteBarrier b → g'.KeepsOrder .identity b s) ↔
        config.preBarrier access.barrier initialization = none ∧
          config.postBarrier access.barrier = none) := by
  obtain ⟨node, hlive, hkind⟩ := Option.map_eq_some_iff.mp hwrite
  obtain ⟨plan, g', hplan, hrun, spliced⟩ :=
    run_lowerNode_of_liveNode? config h.wellFormed hlive (by rw [hkind]; rfl)
  obtain ⟨hstore, hbarrier⟩ := spliced.exists_of_write hplan hlive hkind
  have hunordered : ∀ s ∈ (plan.replacement g.nextId).nodes, g'.HasKind NodeKind.isRawStore s →
      ∀ b ∈ (plan.replacement g.nextId).nodes, g'.HasKind NodeKind.isWriteBarrier b → ∀ oracle,
        g'.canReorder b s oracle = .ok true ∧ g'.canReorder s b oracle = .ok true :=
    fun s hs store b hb barrier => canReorder_writeBarrier (spliced.isAlive_of_listed hb)
      (spliced.isAlive_of_listed hs) barrier store.touches_of_isRawStore
  refine ⟨_, g', hrun, hstore, fun s hs store b hb => ⟨fun fence => ?_, ?_⟩, ?_, ?_⟩
  · exact spliced.wellFormed.keepsOrder_memoryBarrier (spliced.isAlive_of_listed hb)
      (spliced.isAlive_of_listed hs) fence store
  · exact hunordered s hs store b hb
  · -- a barrier that kept its order would be one that may not change places and may
    intro hordered
    by_contra hselected
    obtain ⟨b, hb, barrier⟩ := hbarrier.mpr hselected
    obtain ⟨s, hs, store⟩ := hstore
    have hfalse := (hordered s hs store b hb barrier).1
    rw [(hunordered s hs store b hb barrier .identity).1] at hfalse
    cases hfalse
  · intro hnone s hs store b hb barrier
    exact absurd hnone (hbarrier.mp ⟨b, hb, barrier⟩)

/-- Around the volatile store of `storeThenLoad`, the fence is ordered and the barriers are not. -/
theorem fence_ordered_storeThenLoad :
    storeThenLoad.Reachable ∧
      (storeThenLoad.liveNode? ⟨5⟩).map Node.kind =
        some (.write ⟨LocationUniverse.anyId, .field, true, .volatile⟩ false) ∧
      ∃ r g', (lowerNode LoweringConfig.forTesting.tool ⟨5⟩).run (storeThenLoad, ()) =
        .ok r (g', ()) ∧ ∃ s ∈ r.nodes, g'.HasKind NodeKind.isRawStore s ∧
        ∀ b ∈ r.nodes,
          (g'.HasKind NodeKind.isMemoryBarrier b → g'.KeepsOrder .identity b s) ∧
          (g'.HasKind NodeKind.isWriteBarrier b → ¬ g'.KeepsOrder .identity b s) := by
  have hwrite : (storeThenLoad.liveNode? ⟨5⟩).map Node.kind =
      some (.write ⟨LocationUniverse.anyId, .field, true, .volatile⟩ false) := rfl
  obtain ⟨r, g', hrun, ⟨s, hs, store⟩, hpairs, -⟩ :=
    Reachable.barriers_ordered_iff reachable_storeThenLoad .forTesting hwrite
  refine ⟨reachable_storeThenLoad, hwrite, r, g', hrun, s, hs, store, fun b hb => ?_⟩
  obtain ⟨hfence, hbarrier⟩ := hpairs s hs store b hb
  refine ⟨hfence, fun barrier hordered => ?_⟩
  have hfalse := hordered.1
  rw [(hbarrier barrier .identity).1] at hfalse
  cases hfalse

/-- A store of a reference into a field, which the collector has to know of. -/
def referenceStore : Graph :=
  (addWrite {
    control := ⟨0⟩, address := ⟨3⟩, location := ⟨2⟩, value := ⟨4⟩, barrier := .field }).after <|
  constNull.after <|
  (offsetAddress ⟨1⟩ ⟨2⟩).after <|
  (constInt 16 .long).after <|
  (parameter 0 (.object false)).after <|
  (internLocation (.field "Node" "next" .object false)).after new

theorem reachable_referenceStore : referenceStore.Reachable :=
  .edit (.edit (.edit (.edit (.edit (.edit (.refl new) (.internLocation _)) (.parameter _ _))
    (.constInt _ _)) (.offsetAddress _ _)) .constNull) (.addWrite _)

/-- A barrier of the reference store may change places with the store that it belongs to. -/
theorem barrier_unordered_referenceStore :
    referenceStore.Reachable ∧
      (referenceStore.liveNode? ⟨5⟩).map Node.kind =
        some (.write ⟨⟨2⟩, .field, false, .plain⟩ false) ∧
      ∃ r g', (lowerNode LoweringConfig.forTesting.tool ⟨5⟩).run (referenceStore, ()) =
        .ok r (g', ()) ∧
        ∃ s ∈ r.nodes, g'.HasKind NodeKind.isRawStore s ∧
        ∃ b ∈ r.nodes, g'.HasKind NodeKind.isWriteBarrier b ∧
          g'.canReorder b s .identity = .ok true ∧ g'.canReorder s b .identity = .ok true := by
  have hwrite : (referenceStore.liveNode? ⟨5⟩).map Node.kind =
      some (.write ⟨⟨2⟩, .field, false, .plain⟩ false) := rfl
  obtain ⟨node, hlive, hkind⟩ := Option.map_eq_some_iff.mp hwrite
  obtain ⟨plan, g', hplan, hrun, spliced⟩ := run_lowerNode_of_liveNode? .forTesting
    reachable_referenceStore.wellFormed hlive (by rw [hkind]; rfl)
  obtain ⟨⟨s, hs, store⟩, hbarrier⟩ := spliced.exists_of_write hplan hlive hkind
  obtain ⟨b, hb, barrier⟩ := hbarrier.mpr fun h => absurd h.1 (by decide)
  exact ⟨reachable_referenceStore, hwrite, _, g', hrun, s, hs, store, b, hb, barrier,
    canReorder_writeBarrier (spliced.isAlive_of_listed hb) (spliced.isAlive_of_listed hs) barrier
      store.touches_of_isRawStore .identity⟩

end Graph

end SeaOfNodes
