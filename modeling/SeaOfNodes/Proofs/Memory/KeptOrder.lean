import SeaOfNodes.Proofs.Graph.Invariance
import SeaOfNodes.Proofs.Memory.Embedding

/-!
# Nodes that keep their order

The alias oracle decides about the order of two nodes only where nothing else does.  Three things
come before it: an edge by which one of the two names the other as the last access of its location,
a volatile access, and, for the oracle that compares identities, a node that kills everything.

**`Reaches.keepsOrder`** says so, for every graph that a run leads to and whatever the oracle
answers.

### What is load-bearing

A node without a footprint is not ordered at all, and that is found out before anything else.  So an
edge orders two nodes only because both of them have a footprint.  Whoever has a slot for such an
edge accesses memory (`NodeKind.accesses_of_memory`); whoever is held in one touches memory because
the role was checked when the edge was made (`Balanced.serves_of_input`,
`NodeKind.touches_of_allows_memory`).
-/

namespace SeaOfNodes

/-! ## What nodes of a kind do to memory -/

namespace NodeKind

variable {kind : NodeKind}

/-- A volatile read, write, raw load or raw store. -/
def isVolatileAccess : NodeKind → Bool
  | read access | write access _ => access.order.isVolatile
  | rawLoad access | rawStore access => access.order.isVolatile
  | _ => false

/-- The kinds that kill every location. -/
def killsEverything : NodeKind → Bool
  | start | memoryBarrier _ => true
  | _ => false

/-- Whatever may be named as the last access of a location kills or accesses one. -/
theorem touches_of_allows_memory (h : kind.allows .memory = true) :
    kind.kills.isSome = true ∨ kind.accesses.isSome = true := by
  cases kind with
  | parameter | constInt | constNull | offsetAddress | frameState | nullCheckGuard | nullCheck
  | writeBarrier | ret => cases h
  | read | rawLoad => exact .inr rfl
  | _ => exact .inl rfl

/-- A kind has a slot of the role memory only if it accesses memory, and then only one. -/
theorem accesses_of_memory {slot : Nat} {info : SlotInfo} (h : kind.layout[slot]? = some info)
    (htype : info.inputType = .memory) :
    kind.accesses.isSome = true ∧ kind.slotOf .memory = some slot := by
  have hmem : info ∈ kind.layout := List.mem_of_getElem? h
  cases kind with
  | read | write | rawLoad | rawStore =>
      refine ⟨rfl, ?_⟩
      rcases slot with _ | _ | _ | _ | _ | _ | slot <;> cases h <;> first | rfl | cases htype
  | start | parameter | constInt | constNull | frameState => cases hmem
  | _ =>
      exfalso
      simp only [layout, List.mem_cons, List.not_mem_nil, or_false] at hmem
      rcases hmem with rfl | rfl | rfl | rfl | rfl | rfl <;> cases htype

end NodeKind

namespace Graph

variable {admits : Node → Prop} {g : Graph} {a b id : NodeId} {node : Node} {oracle : AliasOracle}

/-- The node kills or accesses a location. -/
def Touches (g : Graph) (id : NodeId) : Prop :=
  (g.checkpoint? id).isSome = true ∨ (g.memoryAccess? id).isSome = true

theorem touches_iff_of_node? (h : g.node? id = some node) :
    g.Touches id ↔ node.kind.kills.isSome = true ∨ node.kind.accesses.isSome = true := by
  unfold Touches
  rw [checkpoint?_of_node? h, memoryAccess?_of_node? h, Option.isSome_map, Option.isSome_map]

/-- Nodes that touch memory are those with a footprint. -/
theorem footprint_isEmpty_iff (halive : g.isAlive id = true) :
    (g.footprint id).isEmpty = true ↔ ¬ g.Touches id := by
  obtain ⟨node, hnode, -⟩ := isAlive_iff_exists.mp halive
  rw [touches_iff_of_node? hnode, footprint, checkpoint?_of_node? hnode,
    memoryAccess?_of_node? hnode]
  rcases node.kind.kills with _ | killed <;>
    rcases node.kind.accesses with _ | ⟨direction, location, order⟩
  · simp
  · simp
  · simp [Checkpoint.locations]
  · simp only [Option.map_some, Option.isSome_some, or_self, not_true, iff_false]
    split <;> simp [Checkpoint.locations]

/-- How the order of two attached nodes is decided. -/
theorem canReorder_of_isAlive (ha : g.isAlive a = true) (hb : g.isAlive b = true) (hne : a ≠ b) :
    g.canReorder a b oracle =
      .ok (if (g.footprint a).isEmpty || (g.footprint b).isEmpty then true
        else if g.witnesses a b || g.witnesses b a then false
        else if g.isVolatile a || g.isVolatile b then false
        else g.footprintsDisjoint a b oracle) := by
  obtain ⟨nodeA, hnodeA⟩ := isAlive_iff_exists.mp ha
  obtain ⟨nodeB, hnodeB⟩ := isAlive_iff_exists.mp hb
  unfold canReorder
  rw [requireAlive_eq_ok_iff.mpr hnodeA, requireAlive_eq_ok_iff.mpr hnodeB]
  simp only [bind, Except.bind, hne, if_false, pure, Except.pure]
  split
  · rfl
  · split
    · rfl
    · split <;> rfl

/-- **When two attached nodes may not exchange their order.** -/
theorem canReorder_eq_ok_false_iff (ha : g.isAlive a = true) (hb : g.isAlive b = true)
    (hne : a ≠ b) :
    g.canReorder a b oracle = .ok false ↔
      g.Touches a ∧ g.Touches b ∧
        (g.witnesses a b = true ∨ g.witnesses b a = true ∨ g.isVolatile a = true ∨
          g.isVolatile b = true ∨ g.footprintsDisjoint a b oracle = false) := by
  rw [canReorder_of_isAlive ha hb hne, Except.ok.injEq]
  by_cases htouchA : g.Touches a
  · by_cases htouchB : g.Touches b
    · have hfootprints : ¬ ((g.footprint a).isEmpty || (g.footprint b).isEmpty) = true := by
        rw [Bool.or_eq_true, footprint_isEmpty_iff ha, footprint_isEmpty_iff hb]
        exact not_or.mpr ⟨fun h => h htouchA, fun h => h htouchB⟩
      rw [if_neg hfootprints]
      cases g.witnesses a b <;> cases g.witnesses b a <;> cases g.isVolatile a <;>
        cases g.isVolatile b <;> simp [htouchA, htouchB]
    · simp [(footprint_isEmpty_iff hb).mpr htouchB, htouchB]
  · simp [(footprint_isEmpty_iff ha).mpr htouchA, htouchA]

/-- A node that touches no memory may change places with every other, in either direction. -/
theorem canReorder_of_not_touches (ha : g.isAlive a = true) (hb : g.isAlive b = true) (hne : a ≠ b)
    (h : ¬ g.Touches a) (oracle : AliasOracle) :
    g.canReorder a b oracle = .ok true ∧ g.canReorder b a oracle = .ok true := by
  have hempty := (footprint_isEmpty_iff ha).mpr h
  rw [canReorder_of_isAlive ha hb hne, canReorder_of_isAlive hb ha hne.symm, hempty, Bool.true_or,
    Bool.or_true]
  exact ⟨rfl, rfl⟩

/-- The node is of one of the kinds. -/
def HasKind (g : Graph) (kinds : NodeKind → Bool) (id : NodeId) : Prop :=
  ∃ node, g.node? id = some node ∧ kinds node.kind = true

/-- The two nodes may not exchange their order, whichever is asked about first. -/
def KeepsOrder (g : Graph) (oracle : AliasOracle) (a b : NodeId) : Prop :=
  g.canReorder a b oracle = .ok false ∧ g.canReorder b a oracle = .ok false

theorem KeepsOrder.symm (h : g.KeepsOrder oracle a b) : g.KeepsOrder oracle b a := ⟨h.2, h.1⟩

/-! ## Edges -/

/-- A slot of the role memory of the node at `a` holds `b`. -/
def MemoryEdge (g : Graph) (a b : NodeId) : Prop :=
  ∃ node slot info, g.node? a = some node ∧ node.slotInfo slot = some info ∧
    info.inputType = .memory ∧ node.input slot = some b

/-- Whoever has an edge of the role memory accesses memory, and names the node at its other end as
the last access. -/
theorem MemoryEdge.witnesses (edge : g.MemoryEdge a b) :
    g.Touches a ∧ g.witnesses a b = true := by
  obtain ⟨node, slot, info, hnode, hinfo, htype, hinput⟩ := edge
  have hlayout : node.kind.layout[slot]? = some info := by
    unfold Node.slotInfo at hinfo
    split at hinfo
    · next found hfound => rw [hfound, hinfo]
    · -- a further value is no witness of memory order
      split at hinfo
      · obtain ⟨type, hvariadic, rfl⟩ := Option.map_eq_some_iff.mp hinfo
        obtain rfl : type = .memory := htype
        cases hkind : node.kind <;> rw [hkind] at hvariadic <;> cases hvariadic
      · cases hinfo
  obtain ⟨haccesses, hslot⟩ := NodeKind.accesses_of_memory hlayout htype
  have hnames : node.inputOf .memory = some b := by
    unfold Node.inputOf
    rw [hslot, Option.bind_some, hinput]
  refine ⟨(touches_iff_of_node? hnode).mpr (.inr haccesses), ?_⟩
  obtain ⟨⟨direction, location, order⟩, haccess⟩ := Option.isSome_iff_exists.mp haccesses
  rw [Graph.witnesses, memoryAccess?_of_node? hnode, haccess]
  exact decide_eq_true hnames

/-- Whoever is held in a slot of the role memory touches memory. -/
theorem Balanced.touches_of_memoryEdge (balanced : g.Balanced) (ha : g.isAlive a = true)
    (edge : g.MemoryEdge a b) : g.Touches b := by
  obtain ⟨node, slot, info, hnode, hinfo, htype, hinput⟩ := edge
  obtain ⟨_, hnode', halive⟩ := isAlive_iff_exists.mp ha
  cases hnode.symm.trans hnode'
  obtain ⟨_, hinfo', found, hfound, -, hallows⟩ := balanced.serves_of_input hnode halive hinput
  cases hinfo.symm.trans hinfo'
  rw [htype] at hallows
  exact (touches_iff_of_node? hfound).mpr (NodeKind.touches_of_allows_memory hallows)

/-- **An edge of the role memory keeps the order.** -/
theorem Balanced.keepsOrder_of_memoryEdge (balanced : g.Balanced) (ha : g.isAlive a = true)
    (hb : g.isAlive b = true) (hne : a ≠ b) (edge : g.MemoryEdge a b) :
    g.KeepsOrder oracle a b := by
  obtain ⟨htouches, hwitnesses⟩ := edge.witnesses
  have htouched := balanced.touches_of_memoryEdge ha edge
  exact ⟨(canReorder_eq_ok_false_iff ha hb hne).mpr ⟨htouches, htouched, .inl hwitnesses⟩,
    (canReorder_eq_ok_false_iff hb ha hne.symm).mpr
      ⟨htouched, htouches, .inr (.inl hwitnesses)⟩⟩

/-! ## Volatile accesses -/

theorem HasKind.isVolatile (h : g.HasKind NodeKind.isVolatileAccess id) :
    g.Touches id ∧ g.isVolatile id = true := by
  obtain ⟨node, h, hvolatile⟩ := h
  rw [touches_iff_of_node? h, Graph.isVolatile, memoryAccess?_of_node? h]
  cases hkind : node.kind <;> rw [hkind] at hvolatile <;> first
    | exact ⟨.inr rfl, hvolatile⟩
    | cases hvolatile

/-- **A volatile access keeps its order** against whatever touches memory. -/
theorem keepsOrder_of_volatile (ha : g.isAlive a = true) (hb : g.isAlive b = true) (hne : a ≠ b)
    (volatile : g.HasKind NodeKind.isVolatileAccess a) (htouched : g.Touches b) :
    g.KeepsOrder oracle a b := by
  obtain ⟨htouches, hvolatile⟩ := volatile.isVolatile
  exact ⟨(canReorder_eq_ok_false_iff ha hb hne).mpr
      ⟨htouches, htouched, .inr (.inr (.inl hvolatile))⟩,
    (canReorder_eq_ok_false_iff hb ha hne.symm).mpr
      ⟨htouched, htouches, .inr (.inr (.inr (.inl hvolatile)))⟩⟩

/-! ## What kills everything -/

/-- The oracle of identities tells no location apart from the one that overlaps every other. -/
theorem canReorder_identity_any {u : LocationUniverse}
    (h : u.get? LocationUniverse.anyId = some .any) (location : LocationId) :
    AliasOracle.identity.canReorder u LocationUniverse.anyId location = false ∧
      AliasOracle.identity.canReorder u location LocationUniverse.anyId = false := by
  simp only [AliasOracle.identity, h]
  rcases u.get? location with _ | known
  · exact ⟨rfl, rfl⟩
  · have hany : LocationIdentity.any.isAny = true := rfl
    simp [hany, AliasRelation.permitsReorder]

/-- **A node that kills everything keeps its order** against whatever touches memory, under the
oracle of identities. -/
theorem Balanced.keepsOrder_of_killsEverything (balanced : g.Balanced) (ha : g.isAlive a = true)
    (hb : g.isAlive b = true) (hne : a ≠ b) (kills : g.HasKind NodeKind.killsEverything a)
    (htouched : g.Touches b) : g.KeepsOrder .identity a b := by
  obtain ⟨node, hnode, hkills⟩ := kills
  have hkilled : node.kind.kills = some LocationUniverse.anyId ∧ node.kind.accesses = none := by
    cases hkind : node.kind <;> rw [hkind] at hkills <;> first
      | exact ⟨rfl, rfl⟩
      | cases hkills
  have htouches : g.Touches a := by
    rw [touches_iff_of_node? hnode, hkilled.1]
    exact .inl rfl
  have hfootprint : g.footprint a = [LocationUniverse.anyId] := by
    rw [footprint, checkpoint?_of_node? hnode, memoryAccess?_of_node? hnode, hkilled.1, hkilled.2]
    rfl
  obtain ⟨location, hlocation⟩ : ∃ location, location ∈ g.footprint b := by
    apply List.exists_mem_of_ne_nil
    rw [Ne, ← List.isEmpty_iff, footprint_isEmpty_iff hb, Classical.not_not]
    exact htouched
  obtain ⟨hfrom, hinto⟩ := canReorder_identity_any balanced.any location
  refine ⟨(canReorder_eq_ok_false_iff ha hb hne).mpr
      ⟨htouches, htouched, .inr (.inr (.inr (.inr ?_)))⟩,
    (canReorder_eq_ok_false_iff hb ha hne.symm).mpr
      ⟨htouched, htouches, .inr (.inr (.inr (.inr ?_)))⟩⟩
  · rw [footprintsDisjoint, hfootprint, List.all_eq_false]
    refine ⟨_, List.mem_singleton_self _, ?_⟩
    rw [Bool.not_eq_true, List.all_eq_false]
    exact ⟨location, hlocation, by simp [hfrom]⟩
  · rw [footprintsDisjoint, hfootprint, List.all_eq_false]
    exact ⟨location, hlocation, by simp [hinto]⟩

/-! ## The theorem -/

/-- **Nodes that keep their order.**  In every graph that a run leads to, two attached nodes may not
exchange their order, whichever of them is asked about first,

* if a slot of the role memory of one of them holds the other, whatever the oracle answers;
* if one of them is a volatile read, write, raw load or raw store and the other kills or accesses
  a location, whatever the oracle answers;
* if one of them is a start node or a memory barrier and the other kills or accesses a location,
  under the oracle of identities. -/
theorem Reaches.keepsOrder (h : Reaches admits new g) (ha : g.isAlive a = true)
    (hb : g.isAlive b = true) (hne : a ≠ b) :
    (∀ oracle, g.MemoryEdge a b ∨ g.MemoryEdge b a → g.KeepsOrder oracle a b) ∧
    (∀ oracle, g.HasKind NodeKind.isVolatileAccess a ∧ g.Touches b ∨
        g.HasKind NodeKind.isVolatileAccess b ∧ g.Touches a → g.KeepsOrder oracle a b) ∧
    (g.HasKind NodeKind.killsEverything a ∧ g.Touches b ∨
        g.HasKind NodeKind.killsEverything b ∧ g.Touches a → g.KeepsOrder .identity a b) := by
  have balanced := h.balanced
  refine ⟨?_, ?_, ?_⟩
  · rintro oracle (edge | edge)
    · exact balanced.keepsOrder_of_memoryEdge ha hb hne edge
    · exact (balanced.keepsOrder_of_memoryEdge hb ha hne.symm edge).symm
  · rintro oracle (⟨volatile, touched⟩ | ⟨volatile, touched⟩)
    · exact keepsOrder_of_volatile ha hb hne volatile touched
    · exact (keepsOrder_of_volatile hb ha hne.symm volatile touched).symm
  · rintro (⟨kills, touched⟩ | ⟨kills, touched⟩)
    · exact balanced.keepsOrder_of_killsEverything ha hb hne kills touched
    · exact (balanced.keepsOrder_of_killsEverything hb ha hne.symm kills touched).symm

/-- The oracle that takes all locations for disjoint. -/
def tellsAllApart : AliasOracle where
  relation _ _ _ := .disjoint

/-- The volatile store and the load behind it: the load names the store, the store is volatile, and
the start node kills everything. -/
theorem keepsOrder_storeThenLoad :
    storeThenLoad.Reachable ∧ storeThenLoad.MemoryEdge ⟨6⟩ ⟨5⟩ ∧
      storeThenLoad.KeepsOrder tellsAllApart ⟨6⟩ ⟨5⟩ ∧
      storeThenLoad.HasKind NodeKind.isVolatileAccess ⟨5⟩ ∧
      storeThenLoad.KeepsOrder tellsAllApart ⟨5⟩ ⟨0⟩ ∧
      storeThenLoad.KeepsOrder .identity ⟨0⟩ ⟨6⟩ := by
  have edge : storeThenLoad.MemoryEdge ⟨6⟩ ⟨5⟩ := ⟨_, 3, .lastLocationAccess, rfl, rfl, rfl, rfl⟩
  have volatile : storeThenLoad.HasKind NodeKind.isVolatileAccess ⟨5⟩ := ⟨_, rfl, rfl⟩
  have kills : storeThenLoad.HasKind NodeKind.killsEverything ⟨0⟩ := ⟨_, rfl, rfl⟩
  have loadStore := Reaches.keepsOrder reachable_storeThenLoad (a := ⟨6⟩) (b := ⟨5⟩)
    (by decide +kernel) (by decide +kernel) (by decide)
  have storeStart := Reaches.keepsOrder reachable_storeThenLoad (a := ⟨5⟩) (b := ⟨0⟩)
    (by decide +kernel) (by decide +kernel) (by decide)
  have startLoad := Reaches.keepsOrder reachable_storeThenLoad (a := ⟨0⟩) (b := ⟨6⟩)
    (by decide +kernel) (by decide +kernel) (by decide)
  exact ⟨reachable_storeThenLoad, edge, loadStore.1 _ (.inl edge), volatile,
    storeStart.2.1 _ (.inl ⟨volatile, .inl rfl⟩), startLoad.2.2 (.inl ⟨kills, .inr rfl⟩)⟩

end Graph

end SeaOfNodes
