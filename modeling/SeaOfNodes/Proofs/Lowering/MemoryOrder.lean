import SeaOfNodes.Proofs.Lowering.Relocation
import SeaOfNodes.Proofs.Lowering.Totality
import SeaOfNodes.Proofs.Memory.Embedding

/-!
# Lowering preserves the memory order

An access and the machine access that takes its place differ in kind, in the number of their slots,
and in the slot that names the last access of the location.  What memory order looks at is the same:
the machine access kills and accesses what the access did, in the order that it asked for, and it
names what takes the place of the node named before (`LoweringConfig.effect_of_planOf`).

So sending each lowered node to its machine access, and every other node to itself, is a
`MemoryEmbedding` of the graph before into the graph after, however many nodes were lowered
(**`Lowered.memoryEmbedding`**).  **`Reachable.canReorder_lowered`** reads off from it that one
lowering, and the pass as a whole, change nothing about which nodes may exchange their order.  That
the node which is compared with the access is the machine access in its place, and not the access
itself, is `TakesOver`.
-/

namespace SeaOfNodes

/-! ## The machine access of a plan -/

namespace LoweringConfig

variable {config : LoweringConfig} {g : Graph} {base id : NodeId} {plan : Plan} {node : Node}

/-- **The machine access has the effect of the access.** -/
theorem effect_of_planOf (hplan : config.planOf g base id = some plan)
    (hnode : g.liveNode? id = some node) (control : NodeId) :
    plan.block.access.kind.kills = node.kind.kills ∧
      plan.block.access.kind.accesses = node.kind.accesses ∧
      (plan.block.access.node control).inputOf .memory = node.inputOf .memory := by
  obtain ⟨view, hview, rfl⟩ := Option.map_eq_some_iff.mp hplan
  obtain ⟨hkind, -, hmemory⟩ := Graph.of_access? hview hnode
  rw [← hkind, ← hmemory]
  rcases view with r | w | s
  · exact ⟨rfl, rfl, rfl⟩
  · exact ⟨rfl, rfl, rfl⟩
  · exact ⟨rfl, rfl, rfl⟩

end LoweringConfig

namespace Placement

variable {p : Placement} {ids : List NodeId} {id : NodeId}

/-- The machine access of a node that was lowered, and otherwise the node itself. -/
def raw (p : Placement) (ids : List NodeId) (id : NodeId) : NodeId := p.successor ids .memory id

theorem raw_of_notMem (h : id ∉ ids) : p.raw ids id = id := successor_of_notMem h .memory

theorem raw_of_mem (h : id ∈ ids) :
    p.raw ids id =
      (p.base id).advance ((p.plan id).lead.length + (p.plan id).block.before.length) :=
  successor_of_mem h rfl

/-- It is the node that the replacement names for later accesses. -/
theorem memory_replacement (h : id ∈ ids) : (p.replacement id).memory = some (p.raw ids id) := by
  rw [raw_of_mem h]
  exact congrArg some (ArenaId.advance_advance _ _ _)

theorem raw_mem_block (h : id ∈ ids) : p.raw ids id ∈ p.block id := by
  have hoffset : (p.plan id).offset .memory =
      some ((p.plan id).lead.length + (p.plan id).block.before.length) := rfl
  rw [raw_of_mem h]
  exact List.mem_map_of_mem (List.mem_range.mpr (Plan.offset_lt hoffset))

end Placement

namespace Graph

variable {g g' : Graph} {config : LoweringConfig} {ids : List NodeId} {p : Placement}
  {id a b : NodeId}

/-- The access at `id` was given up, and the new node at `raw` is the machine access in its
place. -/
structure TakesOver (config : LoweringConfig) (g : Graph) (id : NodeId) (g' : Graph)
    (raw : NodeId) : Prop where
  /-- The access was replaced. -/
  replaced : g'.state? id = some .replaced
  /-- The machine access is a new node. -/
  fresh : g.size ≤ raw.index
  /-- It is attached, and of the kind that an access of this kind is lowered to. -/
  machine : ∃ node new, g.node? id = some node ∧ g'.liveNode? raw = some new ∧
    new.kind = config.machineKind g.locations node.kind

namespace Lowered

/-- No two old nodes have one machine access. -/
theorem raw_injOn (h : Lowered config g ids p g') (ha : a.index < g.size) (hb : b.index < g.size)
    (he : p.raw ids a = p.raw ids b) : a = b := by
  by_cases hmemA : a ∈ ids
  · by_cases hmemB : b ∈ ids
    · have hblock : p.raw ids a ∈ p.block b := by
        rw [he]
        exact Placement.raw_mem_block hmemB
      exact h.eq_of_mem_block hmemA hmemB (Placement.raw_mem_block hmemA) hblock
    · rw [Placement.raw_of_mem hmemA, Placement.raw_of_notMem hmemB] at he
      exact absurd he (h.advance_ne hmemA hb _)
  · by_cases hmemB : b ∈ ids
    · rw [Placement.raw_of_notMem hmemA, Placement.raw_of_mem hmemB] at he
      exact absurd he.symm (h.advance_ne hmemB ha _)
    · rwa [Placement.raw_of_notMem hmemA, Placement.raw_of_notMem hmemB] at he

/-- **Lowering embeds the graph before it into the graph after it**, as far as memory goes. -/
theorem memoryEmbedding (h : Lowered config g ids p g') :
    MemoryEmbedding (p.raw ids) g g' where
  locations := h.locations
  injOn ha hb := by
    obtain ⟨nodeA, hnodeA, -⟩ := isAlive_iff_exists.mp ha
    obtain ⟨nodeB, hnodeB, -⟩ := isAlive_iff_exists.mp hb
    exact h.raw_injOn (lt_size_of_node? hnodeA) (lt_size_of_node? hnodeB)
  node {a node} hnode halive := by
    by_cases hmem : a ∈ ids
    · -- the machine access, its inputs renamed with all others
      obtain ⟨control, haccess⟩ := (p.plan a).exists_access (p.base a)
      obtain ⟨hkills, haccesses, hmemory⟩ :=
        LoweringConfig.effect_of_planOf (h.planned a hmem) (h.liveNode?_of_mem hmem hnode) control
      let access : Node := (p.plan a).block.access.node control
      refine ⟨(access.settled g.nextBci).rename (p.successor ids), ?_, rfl, hkills, haccesses, ?_⟩
      · rw [Placement.raw_of_mem hmem]
        exact h.new a hmem _ _ haccess
      · rw [Node.inputOf_rename, ← hmemory]
        rfl
    · refine ⟨node.rename (p.successor ids), ?_, halive, rfl, rfl, Node.inputOf_rename _ _ _⟩
      rw [Placement.raw_of_notMem hmem, h.old a hmem (lt_size_of_node? hnode), hnode,
        Option.map_some, Node.redirect_of_isAlive halive]

/-- Every lowered node is replaced by its machine access. -/
theorem takesOver (h : Lowered config g ids p g') (hmem : id ∈ ids) :
    TakesOver config g id g' (p.raw ids id) := by
  obtain ⟨node, hnode, -⟩ := isLowerable_iff.mp (h.lowerable id hmem)
  obtain ⟨control, haccess⟩ := (p.plan id).exists_access (p.base id)
  have hmachine := h.new id hmem _ _ haccess
  rw [← Placement.raw_of_mem hmem] at hmachine
  refine ⟨?_, ?_, node, _, hnode, liveNode?_of_isAlive hmachine rfl, ?_⟩
  · rw [state?, h.lowered id hmem, hnode]
    rfl
  · exact (h.mem_blocks_iff.mp (List.mem_flatMap.mpr ⟨id, hmem, Placement.raw_mem_block hmem⟩)).1
  · rw [Node.kind_rename]
    exact LoweringConfig.kind_access_of_planOf (h.planned id hmem) (h.liveNode?_of_mem hmem hnode)

end Lowered

/-- **Lowering preserves the memory order**, for every configuration and every alias oracle, from
every graph that a run leads to.

* Lowering an attached access succeeds and names for later ones the machine access that takes over.
  Any other attached node may change places with it, in either direction, exactly if it might with
  the access; and for two other attached nodes the answer stays what it was.
* The pass succeeds.  There is an assignment of nodes that sends each lowered node to the machine
  access that its replacement names and that takes over, and each other node to itself; and it
  carries the answer for any two attached nodes of the graph before to their images in the graph
  after. -/
theorem Reachable.canReorder_lowered (h : g.Reachable) (config : LoweringConfig) :
    (∀ id, g.isLowerable id = true → ∃ r g' raw,
      (lowerNode config.tool id).run (g, ()) = .ok r (g', ()) ∧ r.memory = some raw ∧
      TakesOver config g id g' raw ∧
      ∀ (oracle : AliasOracle) (x : NodeId), g.isAlive x = true → x ≠ id →
        g'.canReorder x raw oracle = g.canReorder x id oracle ∧
        g'.canReorder raw x oracle = g.canReorder id x oracle ∧
        ∀ y, g.isAlive y = true → y ≠ id →
          g'.canReorder x y oracle = g.canReorder x y oracle) ∧
    ∃ stats g' replacements, ∃ raw : NodeId → NodeId,
      config.run.run g = .ok stats g' ∧
      ((config.traversal.order g).mapM (lowerNode config.tool)).run (g, ()) =
        .ok replacements (g', ()) ∧
      replacements.map Replacement.memory = (config.traversal.order g).map (some ∘ raw) ∧
      (∀ id, g.isLowerable id = true → TakesOver config g id g' (raw id)) ∧
      (∀ id, g.isLowerable id = false → raw id = id) ∧
      ∀ (oracle : AliasOracle) (a b : NodeId), g.isAlive a = true → g.isAlive b = true →
        g'.canReorder (raw a) (raw b) oracle = g.canReorder a b oracle := by
  have wf := h.wellFormed
  constructor
  · intro id hid
    have hnil : Lowered config g [] default g := .nil wf default
    obtain ⟨p, g', lowered, hrun, -⟩ := hnil.run_lowerNode wf List.not_mem_nil hid
    have hmem : id ∈ [id] := List.mem_singleton_self id
    have hother : ∀ x ≠ id, p.raw [id] x = x :=
      fun x hx => Placement.raw_of_notMem fun hmem => hx (List.mem_singleton.mp hmem)
    have e : MemoryEmbedding (p.raw [id]) g g' := lowered.memoryEmbedding
    have halive := isAlive_of_isLowerable hid
    refine ⟨_, g', p.raw [id] id, hrun, Placement.memory_replacement hmem, lowered.takesOver hmem,
      ?_⟩
    intro oracle x hx hne
    have hinto := e.canReorder wf hx halive oracle
    have hfrom := e.canReorder wf halive hx oracle
    rw [hother x hne] at hinto hfrom
    refine ⟨hinto, hfrom, fun y hy hne' => ?_⟩
    have hothers := e.canReorder wf hx hy oracle
    rwa [hother x hne, hother y hne'] at hothers
  · obtain ⟨p, g', lowered, hmapM, hrun⟩ := wf.run_config config
    have hschedule := config.traversal.schedules_order g
    refine ⟨_, g', _, p.raw (config.traversal.order g), hrun, hmapM, ?_, ?_, ?_, ?_⟩
    · rw [List.map_map]
      exact List.map_congr_left fun id hid => Placement.memory_replacement hid
    · exact fun id hid => lowered.takesOver (hschedule.mem_iff.mpr hid)
    · intro id hid
      exact Placement.raw_of_notMem (hschedule.notMem_iff.mpr hid)
    · intro oracle a b ha hb
      exact lowered.memoryEmbedding.canReorder wf ha hb oracle

/-- The load names the store, and so the two may not change places; nor may the machine accesses
that take their places. -/
theorem canReorder_lowered_storeThenLoad :
    ∃ stats g', ∃ raw : NodeId → NodeId,
      LoweringConfig.forTesting.run.run storeThenLoad = .ok stats g' ∧
      TakesOver .forTesting storeThenLoad ⟨5⟩ g' (raw ⟨5⟩) ∧
      TakesOver .forTesting storeThenLoad ⟨6⟩ g' (raw ⟨6⟩) ∧
      g'.canReorder (raw ⟨5⟩) (raw ⟨6⟩) .identity = .ok false := by
  obtain ⟨-, stats, g', -, raw, hrun, -, -, htakesOver, -, hcarried⟩ :=
    Reachable.canReorder_lowered reachable_storeThenLoad .forTesting
  refine ⟨stats, g', raw, hrun, htakesOver _ (by decide +kernel), htakesOver _ (by decide +kernel),
    ?_⟩
  rw [hcarried .identity ⟨5⟩ ⟨6⟩ (by decide +kernel) (by decide +kernel)]
  rfl

end Graph

end SeaOfNodes
