import SeaOfNodes.Memory.Reorder
import SeaOfNodes.Proofs.Graph.WellFormed

/-!
# Memory order under an embedding

Whether two nodes may exchange their order depends on little: which locations they kill and access,
in which order they ask for, and whether one names the other as the last access of its location.
`Graph.MemoryEmbedding f g g'` says that all this is the same of `f a` in `g'` as it is of `a` in
`g`, for every attached node `a`.

**`MemoryEmbedding.canReorder`** is what it is for: embedded nodes may exchange their order exactly
if the nodes themselves may, whatever the oracle answers.

### Why `f` must not merge nodes

An access names another node.  After the change it names the image of that node, and so it is a
matter of injectivity that it names no other image as well.  Injectivity on attached nodes is
enough: what an attached node names is attached.
-/

namespace SeaOfNodes

namespace Graph

variable {g g' : Graph} {id a b : NodeId} {node : Node} {f : NodeId → NodeId}

/-! ## The effect of a node that is there -/

theorem checkpoint?_of_node? (h : g.node? id = some node) :
    g.checkpoint? id = node.kind.kills.map .single := by
  unfold checkpoint?
  rw [h]
  show (node.kind.kills.bind fun location => some (Checkpoint.single location)) = _
  cases node.kind.kills <;> rfl

theorem memoryAccess?_of_node? (h : g.node? id = some node) :
    g.memoryAccess? id = node.kind.accesses.map fun (direction, location, order) =>
      { node := id, direction, location, order, address := node.input 1
        lastLocationAccess := node.inputOf .memory } := by
  unfold memoryAccess?
  rw [h]
  rcases haccess : node.kind.accesses with _ | ⟨direction, location, order⟩
  · simp [haccess]
  · simp [haccess]

/-- What the slot of a role holds is in a slot. -/
theorem exists_input_of_inputOf {type : InputType} {d : NodeId} (h : node.inputOf type = some d) :
    ∃ slot, node.input slot = some d := by
  obtain ⟨slot, -, hslot⟩ := Option.bind_eq_some_iff.mp h
  exact ⟨slot, hslot⟩

/-- What an attached node names in a role is attached. -/
theorem WellFormed.isAlive_of_inputOf (wf : g.WellFormed) (hnode : g.node? id = some node)
    (halive : node.isAlive = true) {type : InputType} {d : NodeId}
    (h : node.inputOf type = some d) : g.isAlive d = true := by
  obtain ⟨slot, hslot⟩ := exists_input_of_inputOf h
  obtain ⟨info, -, hserves⟩ := wf.serves_of_input hnode halive hslot
  exact (serves_iff.mp hserves).1

/-! ## Embeddings -/

/-- **The attached nodes of `g` do to memory what their images in `g'` do.** -/
structure MemoryEmbedding (f : NodeId → NodeId) (g g' : Graph) : Prop where
  /-- Locations mean the same. -/
  locations : g'.locations = g.locations
  /-- No two attached nodes have one image. -/
  injOn : ∀ {a b}, g.isAlive a = true → g.isAlive b = true → f a = f b → a = b
  /-- The image of an attached node is attached and has the same effect; the node that it names as
  the last access of its location is the image of the one named before. -/
  node : ∀ {a node}, g.node? a = some node → node.isAlive = true →
    ∃ image, g'.node? (f a) = some image ∧ image.isAlive = true ∧
      image.kind.kills = node.kind.kills ∧ image.kind.accesses = node.kind.accesses ∧
      image.inputOf .memory = (node.inputOf .memory).map f

namespace MemoryEmbedding

theorem footprint (e : MemoryEmbedding f g g') (ha : g.isAlive a = true) :
    g'.footprint (f a) = g.footprint a := by
  obtain ⟨node, hnode, halive⟩ := isAlive_iff_exists.mp ha
  obtain ⟨image, himage, -, hkills, haccesses, -⟩ := e.node hnode halive
  unfold Graph.footprint
  rw [checkpoint?_of_node? hnode, checkpoint?_of_node? himage, memoryAccess?_of_node? hnode,
    memoryAccess?_of_node? himage, hkills, haccesses]
  rcases node.kind.accesses with _ | ⟨direction, location, order⟩ <;> rfl

theorem isVolatile (e : MemoryEmbedding f g g') (ha : g.isAlive a = true) :
    g'.isVolatile (f a) = g.isVolatile a := by
  obtain ⟨node, hnode, halive⟩ := isAlive_iff_exists.mp ha
  obtain ⟨image, himage, -, -, haccesses, -⟩ := e.node hnode halive
  unfold Graph.isVolatile
  rw [memoryAccess?_of_node? hnode, memoryAccess?_of_node? himage, haccesses]
  rcases node.kind.accesses with _ | ⟨direction, location, order⟩ <;> rfl

/-- The image names an image exactly if the node names the node. -/
theorem witnesses (e : MemoryEmbedding f g g') (wf : g.WellFormed) (ha : g.isAlive a = true)
    (hb : g.isAlive b = true) : g'.witnesses (f a) (f b) = g.witnesses a b := by
  obtain ⟨node, hnode, halive⟩ := isAlive_iff_exists.mp ha
  obtain ⟨image, himage, -, -, haccesses, hmemory⟩ := e.node hnode halive
  have hnames : image.inputOf .memory = some (f b) ↔ node.inputOf .memory = some b := by
    rw [hmemory, Option.map_eq_some_iff]
    constructor
    · rintro ⟨d, hd, hfd⟩
      rw [hd, e.injOn (wf.isAlive_of_inputOf hnode halive hd) hb hfd]
    · intro hnamed
      exact ⟨b, hnamed, rfl⟩
  unfold Graph.witnesses
  rw [memoryAccess?_of_node? hnode, memoryAccess?_of_node? himage, haccesses]
  rcases node.kind.accesses with _ | ⟨direction, location, order⟩
  · rfl
  · exact decide_eq_decide.mpr hnames

theorem footprintsDisjoint (e : MemoryEmbedding f g g') (ha : g.isAlive a = true)
    (hb : g.isAlive b = true) (oracle : AliasOracle) :
    g'.footprintsDisjoint (f a) (f b) oracle = g.footprintsDisjoint a b oracle := by
  unfold Graph.footprintsDisjoint
  rw [e.footprint ha, e.footprint hb, e.locations]

/-- **Embedded nodes may exchange their order exactly if the nodes may.** -/
theorem canReorder (e : MemoryEmbedding f g g') (wf : g.WellFormed) (ha : g.isAlive a = true)
    (hb : g.isAlive b = true) (oracle : AliasOracle) :
    g'.canReorder (f a) (f b) oracle = g.canReorder a b oracle := by
  have required : ∀ {x}, g.isAlive x = true →
      ∃ node image, g.requireAlive x = .ok node ∧ g'.requireAlive (f x) = .ok image := by
    intro x hx
    obtain ⟨node, hnode, halive⟩ := isAlive_iff_exists.mp hx
    obtain ⟨image, himage, halive', -⟩ := e.node hnode halive
    exact ⟨node, image, requireAlive_eq_ok_iff.mpr ⟨hnode, halive⟩,
      requireAlive_eq_ok_iff.mpr ⟨himage, halive'⟩⟩
  obtain ⟨nodeA, imageA, hnodeA, himageA⟩ := required ha
  obtain ⟨nodeB, imageB, hnodeB, himageB⟩ := required hb
  have hsame : f a = f b ↔ a = b := ⟨e.injOn ha hb, congrArg f⟩
  unfold Graph.canReorder
  rw [hnodeA, himageA, hnodeB, himageB, e.footprint ha, e.footprint hb, e.witnesses wf ha hb,
    e.witnesses wf hb ha, e.isVolatile ha, e.isVolatile hb, e.footprintsDisjoint ha hb]
  simp only [hsame]
  rfl

end MemoryEmbedding

end Graph

end SeaOfNodes
