import SeaOfNodes.Graph.Remove
import SeaOfNodes.Graph.Rewire
import SeaOfNodes.Graph.Create

/-!
# Nodes and usage lists after a change

A graph is seen through two readings: `Graph.node?`, which finds the node of an id, and
`Graph.usages`, which lists who refers to it.  Every elementary change touches one of the two at
one id; the composed changes (`relink`, `registerInputs`, `severInputs`, `bury`) touch both.  This
module says what each change does to either reading, and nothing after it opens a change again.

Registering and severing inputs are folds over usage lists.  `count_usages_registerInputs` and
`count_usages_severInputs` say how often a user occurs in a list afterwards, which is all that edge
symmetry asks about a usage list.  The order is the matter of `usages_registerInputs`, and of
`usages_severInputs`, which takes it back.
-/

namespace SeaOfNodes

namespace Graph

variable (g : Graph) (id other target user : NodeId) (slot : Nat)

/-! ## The elementary changes -/

@[simp] theorem node?_modifyNode (f : Node → Node) :
    (g.modifyNode id f).node? other =
      if id = other then (g.node? other).map f else g.node? other :=
  Arena.get?_modify _ _ _ _

@[simp] theorem usages_modifyNode (f : Node → Node) :
    (g.modifyNode id f).usages other = g.usages other := rfl

@[simp] theorem node?_addUse : (g.addUse target user).node? other = g.node? other := rfl

@[simp] theorem usages_addUse :
    (g.addUse target user).usages other =
      if target = other then g.usages other ++ [user] else g.usages other :=
  SideTable.find_modify _ _ _ _

@[simp] theorem node?_dropUse : (g.dropUse target user).node? other = g.node? other := rfl

@[simp] theorem usages_dropUse :
    (g.dropUse target user).usages other =
      if target = other then swapRemove user (g.usages other) else g.usages other :=
  SideTable.find_modify _ _ _ _

@[simp] theorem node?_putSlot (input : Option NodeId) :
    (g.putSlot user slot input).node? other =
      if user = other
      then (g.node? other).map fun node => { node with slots := node.slots.set slot input }
      else g.node? other :=
  g.node?_modifyNode user other _

@[simp] theorem usages_putSlot (input : Option NodeId) :
    (g.putSlot user slot input).usages other = g.usages other := rfl

@[simp] theorem node?_allocate (node : Node) :
    (g.allocate node).node? other = if other = g.nextId then some node else g.node? other :=
  Arena.get?_push _ _ _

@[simp] theorem usages_allocate (node : Node) :
    (g.allocate node).usages other = g.usages other := rfl

/-- An id that was not allocated yet finds nothing. -/
theorem node?_eq_none_iff : g.node? id = none ↔ g.size ≤ id.index :=
  Arena.get?_eq_none_iff _ _

variable {g id} in
theorem lt_size_of_node? {node : Node} (h : g.node? id = some node) : id.index < g.size :=
  Arena.lt_size_of_get? h

@[simp] theorem node?_nextId : g.node? g.nextId = none := Arena.get?_nextId _

/-! ## What stays

The start node, the locations, the bytecode index and the number of nodes are outside the reach of
every change to an edge. -/

/-- Two graphs that agree in everything but nodes and usage lists, and in the number of nodes. -/
structure SameFrame (g g' : Graph) : Prop where
  /-- The start node. -/
  start : g'.start = g.start
  /-- The locations. -/
  locations : g'.locations = g.locations
  /-- The bytecode index of nodes to be created. -/
  nextBci : g'.nextBci = g.nextBci
  /-- The number of nodes. -/
  size : g'.size = g.size

namespace SameFrame

variable {g g' g'' : Graph}

@[refl] theorem refl (g : Graph) : SameFrame g g := ⟨rfl, rfl, rfl, rfl⟩

theorem trans (h : SameFrame g g') (h' : SameFrame g' g'') : SameFrame g g'' :=
  ⟨h'.start.trans h.start, h'.locations.trans h.locations, h'.nextBci.trans h.nextBci,
    h'.size.trans h.size⟩

/-- A fold of changes keeps what each of them keeps. -/
theorem foldl {α : Type} {f : Graph → α → Graph} (hf : ∀ g a, SameFrame g (f g a)) (as : List α)
    (g : Graph) : SameFrame g (as.foldl f g) := by
  induction as generalizing g with
  | nil => exact refl g
  | cons a as ih => exact (hf g a).trans (ih (f g a))

end SameFrame

theorem sameFrame_modifyNode (f : Node → Node) : SameFrame g (g.modifyNode id f) :=
  ⟨rfl, rfl, rfl, Arena.size_modify _ _ _⟩

theorem sameFrame_addUse : SameFrame g (g.addUse target user) := ⟨rfl, rfl, rfl, rfl⟩

theorem sameFrame_dropUse : SameFrame g (g.dropUse target user) := ⟨rfl, rfl, rfl, rfl⟩

theorem sameFrame_relink (old new : Option NodeId) :
    SameFrame g (g.relink user slot old new) := by
  have hput : ∀ h : Graph, SameFrame h (h.putSlot user slot new) :=
    fun h => sameFrame_modifyNode h user _
  cases old with
  | none =>
    cases new with
    | none => exact hput g
    | some _ => exact (hput g).trans (sameFrame_addUse _ _ _)
  | some d =>
    have hdrop := (sameFrame_dropUse g d user).trans (hput _)
    cases new with
    | none => exact hdrop
    | some _ => exact hdrop.trans (sameFrame_addUse _ _ _)

theorem sameFrame_relinkAll (sites : List UseSite) (old new : Option NodeId) :
    SameFrame g (g.relinkAll sites old new) := by
  rw [relinkAll]
  refine SameFrame.foldl ?_ sites g
  intro h site
  exact h.sameFrame_relink site.user site.slot old new

theorem sameFrame_registerInputs : SameFrame g (g.registerInputs id) := by
  rw [registerInputs]
  cases g.node? id with
  | none => exact .refl g
  | some node => exact SameFrame.foldl (fun g d => g.sameFrame_addUse d id) node.inputs g

theorem sameFrame_severInputs : SameFrame g (g.severInputs id) := by
  rw [severInputs]
  cases g.node? id with
  | none => exact .refl g
  | some node =>
    exact (SameFrame.foldl (fun g d => g.sameFrame_dropUse d id) node.inputs g).trans
      (sameFrame_modifyNode _ id _)

theorem sameFrame_bury (state : NodeState) : SameFrame g (g.bury id state) := by
  rw [bury]
  split
  · exact (g.sameFrame_severInputs id).trans (sameFrame_modifyNode _ id _)
  · exact sameFrame_modifyNode g id _

/-! ## Moving a slot -/

/-- Relinking a slot is seen as a write of that slot. -/
@[simp] theorem node?_relink (old new : Option NodeId) :
    (g.relink user slot old new).node? other =
      if user = other
      then (g.node? other).map fun node => { node with slots := node.slots.set slot new }
      else g.node? other := by
  cases old <;> cases new <;> simp [relink]

/-- Relinking touches no usage list but those of the two inputs. -/
theorem usages_relink_of_ne {old new : Option NodeId} (hold : old ≠ some other)
    (hnew : new ≠ some other) : (g.relink user slot old new).usages other = g.usages other := by
  cases old <;> cases new <;> simp_all [relink]

/-- In a usage list, relinking takes the user off once at the old target and appends it at the new
one. -/
theorem count_usages_relink (old new : Option NodeId) (x : NodeId) :
    ((g.relink user slot old new).usages other).count x =
      ((g.usages other).count x - if old = some other ∧ user = x then 1 else 0) +
        if new = some other ∧ user = x then 1 else 0 := by
  cases old <;> cases new <;> simp [relink]
  · split <;> simp_all [List.count_singleton]
  · split <;> simp_all [count_swapRemove]
  · split <;> split <;> simp_all [List.count_singleton, count_swapRemove]

/-! ## Registering and severing all inputs -/

private theorem node?_foldl_addUse (targets : List NodeId) :
    (targets.foldl (fun g d => g.addUse d user) g).node? other = g.node? other := by
  induction targets generalizing g with
  | nil => rfl
  | cons d targets ih => rw [List.foldl_cons, ih, node?_addUse]

private theorem usages_foldl_addUse (targets : List NodeId) :
    (targets.foldl (fun g d => g.addUse d user) g).usages other =
      g.usages other ++ List.replicate (targets.count other) user := by
  induction targets generalizing g with
  | nil => simp
  | cons d targets ih =>
    rw [List.foldl_cons, ih, usages_addUse, List.count_cons]
    by_cases hd : d = other <;> simp [hd, List.replicate_succ]

private theorem node?_foldl_dropUse (targets : List NodeId) :
    (targets.foldl (fun g d => g.dropUse d user) g).node? other = g.node? other := by
  induction targets generalizing g with
  | nil => rfl
  | cons d targets ih => rw [List.foldl_cons, ih, node?_dropUse]

private theorem count_usages_foldl_dropUse (targets : List NodeId) (x : NodeId) :
    ((targets.foldl (fun g d => g.dropUse d user) g).usages other).count x =
      (g.usages other).count x - if user = x then targets.count other else 0 := by
  induction targets generalizing g with
  | nil => simp
  | cons d targets ih =>
    rw [List.foldl_cons, ih, usages_dropUse, List.count_cons]
    by_cases hd : d = other <;> by_cases hx : user = x <;> simp [hd, hx, count_swapRemove]
    omega

variable {g other user} in
/-- What was appended to a list is taken off again, and what stood before it stays in its order. -/
private theorem usages_foldl_dropUse {targets users : List NodeId} (hfresh : user ∉ users)
    (h : g.usages other = users ++ List.replicate (targets.count other) user) :
    (targets.foldl (fun g d => g.dropUse d user) g).usages other = users := by
  induction targets generalizing g with
  | nil => simpa using h
  | cons d targets ih =>
    rw [List.foldl_cons]
    apply ih
    rw [usages_dropUse, h, List.count_cons]
    by_cases hd : d = other
    · simp [hd, swapRemove_append_replicate hfresh]
    · simp [hd]

@[simp] theorem node?_registerInputs :
    (g.registerInputs id).node? other = g.node? other := by
  rw [registerInputs]
  cases g.node? id with
  | none => rfl
  | some node => exact g.node?_foldl_addUse other id node.inputs

/-- The number of slots of a node that hold `target` is their number among its inputs. -/
theorem count_inputs (node : Node) : node.inputs.count target = node.slots.count (some target) := by
  rw [Node.inputs, List.count_filterMap, List.count]
  congr 1

variable {g id} in
/-- Registering the inputs of a node appends it to the list of each, once for every slot. -/
theorem usages_registerInputs {node : Node} (h : g.node? id = some node) :
    (g.registerInputs id).usages other =
      g.usages other ++ List.replicate (node.slots.count (some other)) id := by
  rw [registerInputs, h, ← count_inputs]
  exact g.usages_foldl_addUse other id node.inputs

variable {g id} in
/-- Registering the inputs of a node notes it once more for each of its slots. -/
theorem count_usages_registerInputs {node : Node} (h : g.node? id = some node) (x : NodeId) :
    ((g.registerInputs id).usages other).count x =
      (g.usages other).count x + if id = x then node.slots.count (some other) else 0 := by
  rw [usages_registerInputs other h, List.count_append, List.count_replicate]
  simp only [beq_iff_eq]

variable {g id} in
theorem node?_severInputs {node : Node} (h : g.node? id = some node) :
    (g.severInputs id).node? other =
      if id = other then some { node with slots := [] } else g.node? other := by
  rw [severInputs, h]
  simp only [node?_modifyNode, node?_foldl_dropUse]
  split
  · next he => rw [← he, h]; rfl
  · rfl

variable {g id} in
/-- Severing the inputs of a node takes it off once for each of its slots. -/
theorem count_usages_severInputs {node : Node} (h : g.node? id = some node) (x : NodeId) :
    ((g.severInputs id).usages other).count x =
      (g.usages other).count x - if id = x then node.slots.count (some other) else 0 := by
  rw [severInputs, h, ← count_inputs]
  exact g.count_usages_foldl_dropUse other id node.inputs x

variable {g id} in
/-- Severing takes back what registering has appended last: the lists are as they were before, in
their order. -/
theorem usages_severInputs {node : Node} {users : List NodeId} (h : g.node? id = some node)
    (hfresh : id ∉ users)
    (husages : g.usages other = users ++ List.replicate (node.slots.count (some other)) id) :
    (g.severInputs id).usages other = users := by
  rw [severInputs, h]
  exact usages_foldl_dropUse hfresh (by rw [husages, count_inputs])

/-- A buried node keeps what it is and loses its slots. -/
theorem node?_bury (state : NodeState) :
    (g.bury id state).node? other =
      if id = other then (g.node? other).map fun node => { node with slots := [], state := state }
      else g.node? other := by
  rw [bury, node?_modifyNode]
  cases hid : g.node? id with
  | none =>
    have hdead : g.isAlive id = false := by simp [isAlive, hid]
    rw [hdead]
    simp
  | some node =>
    by_cases he : id = other
    · subst he
      cases g.isAlive id <;> simp [node?_severInputs, hid]
    · cases g.isAlive id <;> simp [node?_severInputs other hid, he]

variable {g id} in
/-- Burying a node takes it off the lists of what it held, if it was attached. -/
theorem count_usages_bury {node : Node} (h : g.node? id = some node) (state : NodeState)
    (x : NodeId) :
    ((g.bury id state).usages other).count x =
      (g.usages other).count x -
        if id = x ∧ node.isAlive = true then node.slots.count (some other) else 0 := by
  have halive : g.isAlive id = node.isAlive := by simp [isAlive, h]
  rw [bury, usages_modifyNode, halive]
  cases node.isAlive with
  | true =>
    rw [if_pos rfl, count_usages_severInputs other h]
    simp
  | false => simp

end Graph

end SeaOfNodes
