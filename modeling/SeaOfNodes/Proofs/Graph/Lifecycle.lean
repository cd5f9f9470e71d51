import SeaOfNodes.Proofs.Graph.WellFormed

/-!
# Nodes that enter and leave the graph

The three changes of the state of a node keep the invariant:

* a node is allocated detached, and nothing refers to it yet (`Balanced.allocate`);
* a node whose slots fit becomes attached, and the targets of its slots are told
  (`Balanced.insert`, `Balanced.attach`);
* a node that nothing refers to is buried, and the targets of its slots are told
  (`Balanced.bury`).

Marks on nodes, the bytecode index and locations that are interned are outside of all this
(`Balanced.modifyMarks`, `Balanced.congr`).
-/

namespace SeaOfNodes

namespace Graph

variable {g g' : Graph} {id : NodeId} {node node' : Node}

/-- A new graph has no node but the start node. -/
theorem eq_startNode_of_new (h : new.node? id = some node) : node = startNode := by
  unfold node? new at h
  rw [Arena.get?_push, Arena.get?_empty] at h
  split at h
  · exact (Option.some.inj h).symm
  · cases h

/-- The graph that holds the start node only is balanced. -/
theorem balanced_new : Graph.new.Balanced where
  placed {id node} h := by
    rw [eq_startNode_of_new h]
    refine ⟨fun _ => rfl, fun _ slot hslot => absurd hslot (Nat.not_lt_zero slot), ?_⟩
    rintro (h | h) <;> cases h
  absent _ _ := rfl
  start := ⟨startNode, rfl, rfl⟩
  any := rfl
  indexed := LocationUniverse.indexed_new

theorem wellFormed_new : Graph.new.WellFormed where
  toBalanced := balanced_new
  keepsLayout h _ := by
    rw [eq_startNode_of_new h]
    exact Nat.zero_le _

/-! ## Entering -/

/-- A node that is not attached has no edges. -/
theorem edges_of_not_alive (h : node.isAlive = false) (target : NodeId) :
    node.edges target = 0 := by
  unfold Node.edges
  rw [h]
  rfl

/-- Whoever is not attached occurs in no usage list. -/
theorem Balanced.count_usages_eq_zero (b : g.Balanced) (h : g.isAlive id = false)
    (target : NodeId) : (g.usages target).count id = 0 := by
  cases hid : g.node? id with
  | none => exact b.absent hid target
  | some node =>
      rw [(b.placed hid).count_usages]
      exact edges_of_not_alive (by simpa [isAlive, hid] using h) target

/-- **A node enters the graph.**  It was not attached before, its slots fit, and it is noted once
for each of them. -/
theorem Balanced.enter (b : g.Balanced)
    (hframe : g'.start = g.start ∧ g'.locations = g.locations) (hid : g.isAlive id = false)
    (hfind : ∀ x, g'.node? x = if id = x then some node' else g.node? x)
    (hkind : ∀ n, g.node? id = some n → node'.kind = n.kind)
    (hcount : ∀ d x, (g'.usages d).count x =
      (g.usages d).count x + if id = x then node'.slots.count (some d) else 0)
    (halive : node'.isAlive = true) (hfit : g.SlotsFit node') : g'.Balanced := by
  have hserves : ∀ d type, g.Serves d type → g'.Serves d type :=
    fun d type => serves_of_update hfind fun n hn _ => ⟨halive, hkind n hn⟩
  refine b.update hframe.1 hframe.2 hfind hkind ?_ (fun _ _ _ d type _ _ _ _ => hserves d type)
    ⟨?_, ?_, ?_⟩
  · intro x hx d
    rw [hcount, if_neg (Ne.symm hx), Nat.add_zero]
  · -- before it entered it was noted nowhere
    intro d
    rw [hcount, b.count_usages_eq_zero hid, if_pos rfl, Nat.zero_add, Node.edges, if_pos halive]
  · exact fun _ => hfit.mono hserves
  · intro h
    have hattached : node'.state = .attached := (NodeState.isAlive_iff _).mp halive
    exact absurd h (by simp [hattached])

/-- Marks and state do not matter to whether the slots of a node fit. -/
theorem slotsFit_congr (hkind : node'.kind = node.kind) (hslots : node'.slots = node.slots) :
    g.SlotsFit node' ↔ g.SlotsFit node := by
  simp only [SlotsFit, Node.slotInfo, Node.input, hkind, hslots]

theorem isAlive_nextId : g.isAlive g.nextId = false := by
  unfold isAlive
  rw [node?_nextId]
  rfl

/-- What the graph finds after an insertion. -/
theorem node?_insert (x : NodeId) :
    (g.insert node).node? x =
      if g.nextId = x then some { node with bci := g.nextBci, state := .attached }
      else g.node? x := by
  unfold insert
  rw [node?_registerInputs, node?_allocate]
  simp only [eq_comm]

@[simp] theorem start_insert (g : Graph) (node : Node) : (g.insert node).start = g.start :=
  (sameFrame_registerInputs _ _).start

@[simp] theorem locations_insert (g : Graph) (node : Node) :
    (g.insert node).locations = g.locations :=
  (sameFrame_registerInputs _ _).locations

@[simp] theorem nextBci_insert (g : Graph) (node : Node) : (g.insert node).nextBci = g.nextBci :=
  (sameFrame_registerInputs _ _).nextBci

@[simp] theorem size_insert (g : Graph) (node : Node) : (g.insert node).size = g.size + 1 :=
  (sameFrame_registerInputs _ _).size.trans (Arena.size_push _ _)

theorem Balanced.insert (b : g.Balanced) (hfit : g.SlotsFit node) :
    (g.insert node).Balanced := by
  let entered : Node := { node with bci := g.nextBci, state := .attached }
  have hframe := (g.allocate entered).sameFrame_registerInputs g.nextId
  refine b.enter ⟨hframe.start, hframe.locations⟩ isAlive_nextId (fun x => node?_insert x)
    ?_ ?_ rfl ((slotsFit_congr rfl rfl).mpr hfit)
  · intro n hn
    rw [node?_nextId] at hn
    cases hn
  · intro d x
    rw [Graph.insert, count_usages_registerInputs d (by rw [node?_allocate, if_pos rfl]),
      usages_allocate]

theorem Balanced.attach (b : g.Balanced) (hnode : g.node? id = some node)
    (hstate : node.state = .detached) (hfit : g.SlotsFit node) :
    ((g.modifyNode id fun node => { node with state := .attached }).registerInputs
      id).Balanced := by
  have hfind : ∀ x, (g.modifyNode id fun node => { node with state := .attached }).node? x =
      if id = x then some { node with state := .attached } else g.node? x :=
    node?_of_modify hnode fun x => g.node?_modifyNode id x _
  have hframe := (g.sameFrame_modifyNode id fun node => { node with state := .attached }).trans
    (sameFrame_registerInputs _ id)
  refine b.enter ⟨hframe.start, hframe.locations⟩ ?_
    (fun x => (node?_registerInputs _ id x).trans (hfind x)) ?_ ?_ rfl
    ((slotsFit_congr rfl rfl).mpr hfit)
  · simp [isAlive, hnode, Node.isAlive, hstate, NodeState.isAlive]
  · intro n hn
    cases hnode.symm.trans hn
    rfl
  · intro d x
    rw [count_usages_registerInputs d (by rw [hfind, if_pos rfl]), usages_modifyNode]

/-- Allocating a detached node keeps the invariant, whatever its slots hold. -/
theorem Balanced.allocate (b : g.Balanced)
    (hstate : node.state = .detached) : (g.allocate node).Balanced := by
  have hfind : ∀ x, (g.allocate node).node? x = if g.nextId = x then some node else g.node? x := by
    intro x
    rw [node?_allocate]
    simp only [eq_comm]
  have hdead : node.isAlive = false := by simp [Node.isAlive, hstate, NodeState.isAlive]
  have hnone : ∀ n, g.node? g.nextId ≠ some n := by simp
  refine b.update rfl rfl hfind (fun n hn => absurd hn (hnone n)) (fun _ _ _ => rfl)
    (fun _ _ _ d type _ _ _ _ => serves_of_update hfind fun n hn => absurd hn (hnone n))
    ⟨?_, ?_, ?_⟩
  · intro d
    rw [usages_allocate, b.absent (g.node?_nextId), edges_of_not_alive hdead]
  · intro h
    rw [hdead] at h
    cases h
  · intro h
    exact absurd h (by simp [hstate])

/-! ## Leaving -/

/-- **A node leaves the graph.**  Nothing refers to it, if it was attached. -/
theorem Balanced.bury (b : g.Balanced) (hnode : g.node? id = some node)
    (hunused : node.isAlive = true → g.usages id = []) {state : NodeState}
    (hstate : state = .replaced ∨ state = .deleted) : (g.bury id state).Balanced := by
  have hfind := node?_of_modify hnode fun x => g.node?_bury id x state
  have hframe := g.sameFrame_bury id state
  have hdead : { node with slots := [], state := state }.isAlive = false := by
    rcases hstate with rfl | rfl <;> rfl
  refine b.update hframe.start hframe.locations hfind ?_ ?_ ?_ ⟨?_, ?_, fun _ => rfl⟩
  · intro n hn
    cases hnode.symm.trans hn
    rfl
  · intro x hx d
    rw [count_usages_bury d hnode, if_neg fun h => hx h.1.symm, Nat.sub_zero]
  · -- no attached node holds the buried one, so what they hold is untouched
    intro x n slot d type _ hx halive hd hserves
    have hne : d ≠ id := by
      by_cases hnodeAlive : node.isAlive = true
      · exact b.ne_of_unused (hunused hnodeAlive) hx halive hd
      · rintro rfl
        obtain ⟨found, hfound, hfoundAlive, -⟩ := hserves
        cases hnode.symm.trans hfound
        exact hnodeAlive hfoundAlive
    refine hserves.mono fun found hfound hfoundAlive => ⟨found, ?_, hfoundAlive, rfl⟩
    rw [hfind, if_neg (Ne.symm hne), hfound]
  · intro d
    rw [count_usages_bury d hnode, (b.placed hnode).count_usages, edges_of_not_alive hdead,
      Node.edges]
    by_cases h : node.isAlive = true <;> simp [h]
  · intro h
    rw [hdead] at h
    cases h

/-! ## Marks and context -/

/-- What is in the graph besides nodes, usage lists, the start and the locations does not matter,
and of the locations only the distinguished one and that they are found by their keys. -/
theorem Balanced.congr (b : g.Balanced) (hnode : ∀ x, g'.node? x = g.node? x)
    (husages : ∀ x, g'.usages x = g.usages x) (hstart : g'.start = g.start)
    (hany : g'.locations.get? LocationUniverse.anyId = some .any)
    (hindexed : g'.locations.Indexed) : g'.Balanced where
  placed {x node} hx := by
    refine (b.placed ((hnode x).symm.trans hx)).frame (fun d => by rw [husages]) ?_
    intro _ d type _ _ hserves
    exact hserves.mono fun found hfound halive => ⟨found, (hnode d).trans hfound, halive, rfl⟩
  absent {x} hx d := by rw [husages, b.absent ((hnode x).symm.trans hx)]
  start := by
    obtain ⟨found, hfound, hkind⟩ := b.start
    exact ⟨found, by rw [hstart, hnode, hfound], hkind⟩
  any := hany
  indexed := hindexed

/-- Changing marks keeps the invariant. -/
theorem Balanced.modifyMarks (b : g.Balanced) (id : NodeId) {f : Node → Node}
    (hkind : ∀ node, (f node).kind = node.kind) (hslots : ∀ node, (f node).slots = node.slots)
    (hstate : ∀ node, (f node).state = node.state) : (g.modifyNode id f).Balanced := by
  cases hnode : g.node? id with
  | none =>
      refine b.congr (fun x => ?_) (fun _ => rfl) rfl b.any b.indexed
      rw [node?_modifyNode]
      split
      · next he => rw [← he, hnode]; rfl
      · rfl
  | some node =>
      have hfind := node?_of_modify hnode fun x => g.node?_modifyNode id x f
      have halive : (f node).isAlive = node.isAlive := by rw [Node.isAlive, Node.isAlive, hstate]
      have hold : ∀ n, g.node? id = some n → n.isAlive = true →
          (f node).isAlive = true ∧ (f node).kind = n.kind := by
        intro n hn hn'
        cases hnode.symm.trans hn
        exact ⟨halive.trans hn', hkind node⟩
      have hserves : ∀ d type, g.Serves d type → (g.modifyNode id f).Serves d type :=
        fun d type => serves_of_update hfind hold
      have placed := b.placed hnode
      refine b.update rfl rfl hfind ?_ (fun _ _ _ => rfl)
        (fun _ _ _ d type _ _ _ _ => hserves d type) ⟨?_, ?_, ?_⟩
      · intro n hn
        cases hnode.symm.trans hn
        exact hkind node
      · intro d
        rw [usages_modifyNode, placed.count_usages, Node.edges, Node.edges, halive, hslots]
      · intro h
        exact (slotsFit_congr (hkind node) (hslots node)).mpr
          ((placed.slotsFit (halive ▸ h)).mono hserves)
      · rw [hstate, hslots]
        exact placed.slots_eq_nil

end Graph

/-- Interning leaves the location that overlaps every other at its place. -/
theorem LocationUniverse.Indexed.get?_anyId_intern {u : LocationUniverse} (indexed : u.Indexed)
    (h : u.get? anyId = some .any) (identity : LocationIdentity) :
    (u.intern identity).2.get? anyId = some .any := by
  obtain ⟨known, hknown, hkey⟩ := indexed.get?_intern h identity
  rw [hknown, LocationIdentity.asMutable_eq_any_iff.mp hkey]

end SeaOfNodes
