import SeaOfNodes.Proofs.Graph.Invariance
import SeaOfNodes.Proofs.Lowering.Growth

/-!
# Graphs that are built upon

Not every tool inserts its nodes one on top of the other.  It may allocate a node first and attach
it later, fill a slot of its own node with a node that is created only then, tie its nodes to a
loop, or drop one that it does not need.  `Graph.Construction` lists the edits of a tool that keeps
to what is its own: with any arguments, except that the node whose slots or usages are edited was
allocated since a mark.  `Graph.Constructs g h` says that such edits lead from `g` to `h`.

Whatever is built this way stands beside the old graph.  **`Constructs.extends`** says so, in terms
of `Graph.Extends`: the old nodes are as they were, and every usage list begins with what it was.
The second clause is about lists and not about multisets, since a removal by swapping moves the last
entry of a list.  It moves an entry of a new node then, because the old ones stand in front, and it
is an entry of a new node that is removed.
-/

namespace SeaOfNodes

/-- Removal by swapping leaves the front of a list alone if the entry is not there. -/
theorem prefix_swapRemove {α : Type} [DecidableEq α] {x : α} {front xs : List α} (hx : x ∉ front)
    (h : front <+: xs) : front <+: swapRemove x xs := by
  obtain ⟨rest, rfl⟩ := h
  induction front with
  | nil => exact List.nil_prefix
  | cons y front ih =>
      rw [List.mem_cons, not_or] at hx
      rw [List.cons_append, swapRemove, if_neg (Ne.symm hx.1)]
      exact List.cons_prefix_cons.mpr ⟨rfl, ih hx.2⟩

namespace Graph

variable {α : Type} {admits : Node → Prop} {m : Edit α} {g h k : Graph} {node : Node}
  {x id user : NodeId} {mark : Nat}

/-! ## Edits of one's own nodes -/

/-- The edits that create nodes, or change nodes that were allocated since the graph had `mark`
nodes. -/
inductive Construction (admits : Node → Prop) (mark : Nat) : {α : Type} → Edit α → Prop where
  | create {α : Type} {m : Edit α} (creation : Creation admits m) : Construction admits mark m
  | addDetached {node : Node} (admitted : admits node) :
      Construction admits mark (addDetached node)
  | attach {id : NodeId} (own : mark ≤ id.index) : Construction admits mark (attach id)
  | setInput {user : NodeId} (own : mark ≤ user.index) (slot : Nat) (input : Option NodeId) :
      Construction admits mark (setInput user slot input)
  | addInput {user : NodeId} (own : mark ≤ user.index) (input : NodeId) :
      Construction admits mark (addInput user input)
  | removeInput {user : NodeId} (own : mark ≤ user.index) (slot : Nat) :
      Construction admits mark (removeInput user slot)
  | replaceInput {user : NodeId} (own : mark ≤ user.index) (old new : NodeId) :
      Construction admits mark (replaceInput user old new)
  | replaceAtUsages {old : NodeId} (own : mark ≤ old.index) (new : NodeId) :
      Construction admits mark (replaceAtUsages old new)
  | replaceAtUsagesOfType {old : NodeId} (own : mark ≤ old.index) (type : InputType)
      (new : Option NodeId) : Construction admits mark (replaceAtUsagesOfType old type new)
  | setStateAfter {id : NodeId} (own : mark ≤ id.index) (state : Option NodeId) :
      Construction admits mark (setStateAfter id state)
  | setLastLocationAccess {id : NodeId} (own : mark ≤ id.index) (access : Option NodeId) :
      Construction admits mark (setLastLocationAccess id access)
  | setGuard {id : NodeId} (own : mark ≤ id.index) (guard : Option NodeId) :
      Construction admits mark (setGuard id guard)
  | delete {id : NodeId} (own : mark ≤ id.index) : Construction admits mark (delete id)

/-- `Constructs admits g h`: edits of nodes that were allocated since lead from `g` to `h`. -/
inductive Constructs (admits : Node → Prop) (g : Graph) : Graph → Prop where
  /-- Nothing was done. -/
  | refl : Constructs admits g g
  /-- One more edit was made, or refused. -/
  | edit {h : Graph} {α : Type} {m : Edit α} (constructed : Constructs admits g h)
      (construction : Construction admits g.size m) : Constructs admits g (m.after h)

theorem Construction.operation (construction : Construction admits mark m) :
    Operation admits m := by
  cases construction with
  | create creation => exact creation.operation
  | addDetached admitted => exact .addDetached admitted
  | attach => exact .attach _
  | setInput _ slot input => exact .setInput _ slot input
  | addInput _ input => exact .addInput _ input
  | removeInput _ slot => exact .removeInput _ slot
  | replaceInput _ old new => exact .replaceInput _ old new
  | replaceAtUsages _ new => exact .replaceAtUsages _ new
  | replaceAtUsagesOfType _ type new => exact .replaceAtUsagesOfType _ type new
  | setStateAfter _ state => exact .setStateAfter _ state
  | setLastLocationAccess _ access => exact .setLastLocationAccess _ access
  | setGuard _ guard => exact .setGuard _ guard
  | delete => exact .delete _

/-- What is built upon a graph is a run. -/
theorem Constructs.reaches (constructed : Constructs admits g h) : Reaches admits g h := by
  induction constructed with
  | refl => exact .refl g
  | edit _ construction ih => exact .edit ih construction.operation

/-- Nodes that are inserted are built upon the graph. -/
theorem Grows.constructs (grown : Grows admits g h) : Constructs admits g h := by
  induction grown with
  | refl => exact .refl
  | create _ creation ih => exact .edit ih (.create creation)

/-! ## What stands beside the old graph -/

/-- **The graph `k` has all of `g`**: nothing was done to the nodes of `g`, and what was done to
usage lists was done behind what they were. -/
structure Extends (g k : Graph) : Prop where
  /-- Nodes are added. -/
  size_le : g.size ≤ k.size
  /-- The old nodes are as they were. -/
  old : ∀ {x : NodeId}, x.index < g.size → k.node? x = g.node? x
  /-- The usage lists begin as they were. -/
  usages : ∀ x, g.usages x <+: k.usages x

theorem extends_refl (g : Graph) : Extends g g where
  size_le := Nat.le_refl _
  old _ := rfl
  usages x := List.prefix_refl (g.usages x)

namespace Extends

/-- A change of one new node. -/
theorem modifyNode (h : Extends g k) (own : g.size ≤ id.index) (f : Node → Node) :
    Extends g (k.modifyNode id f) where
  size_le := (k.sameFrame_modifyNode id f).size ▸ h.size_le
  old {x} hx := by
    have hne : id ≠ x := by
      rintro rfl
      exact Nat.not_lt.mpr own hx
    rw [node?_modifyNode, if_neg hne, h.old hx]
  usages := h.usages

theorem addUse (h : Extends g k) (target user : NodeId) : Extends g (k.addUse target user) where
  size_le := h.size_le
  old := h.old
  usages x := by
    rw [usages_addUse]
    split
    · exact (h.usages x).trans (List.prefix_append _ _)
    · exact h.usages x

/-- The new node was not noted in front, where the old ones are. -/
theorem dropUse (h : Extends g k) (fresh : g.Fresh) (own : g.size ≤ user.index)
    (target : NodeId) : Extends g (k.dropUse target user) where
  size_le := h.size_le
  old := h.old
  usages x := by
    rw [usages_dropUse]
    split
    · exact prefix_swapRemove ((fresh user own).2 x) (h.usages x)
    · exact h.usages x

theorem allocate (h : Extends g k) (node : Node) : Extends g (k.allocate node) where
  size_le := by
    show g.size ≤ (k.nodes.push node).size
    rw [Arena.size_push]
    exact Nat.le_succ_of_le h.size_le
  old {x} hx := by
    have hne : x ≠ k.nextId := by
      rintro rfl
      exact Nat.not_lt.mpr h.size_le hx
    rw [node?_allocate, if_neg hne, h.old hx]
  usages := h.usages

theorem foldl {β : Type} {f : Graph → β → Graph} (hf : ∀ {k} b, Extends g k → Extends g (f k b))
    (h : Extends g k) (bs : List β) : Extends g (bs.foldl f k) := by
  induction bs generalizing k with
  | nil => exact h
  | cons b bs ih => exact ih (hf b h)

/-! The composed changes are made of these. -/

theorem registerInputs (h : Extends g k) (id : NodeId) : Extends g (k.registerInputs id) := by
  unfold Graph.registerInputs
  cases k.node? id with
  | none => exact h
  | some node => exact h.foldl (fun target h => h.addUse target id) node.inputs

theorem insert (h : Extends g k) (node : Node) : Extends g (k.insert node) :=
  (h.allocate _).registerInputs _

theorem bury (h : Extends g k) (fresh : g.Fresh) (own : g.size ≤ id.index) (state : NodeState) :
    Extends g (k.bury id state) := by
  have severed : Extends g (k.severInputs id) := by
    unfold severInputs
    cases k.node? id with
    | none => exact h
    | some node =>
        exact (h.foldl (fun target h => h.dropUse fresh own target) node.inputs).modifyNode own _
  unfold Graph.bury
  split
  · exact severed.modifyNode own _
  · exact h.modifyNode own _

theorem relink (h : Extends g k) (fresh : g.Fresh) (own : g.size ≤ user.index) (slot : Nat)
    (old new : Option NodeId) : Extends g (k.relink user slot old new) := by
  have dropped : ∀ target, Extends g (k.dropUse target user) := fun target =>
    h.dropUse fresh own target
  cases old with
  | none =>
      cases new with
      | none => exact h.modifyNode own _
      | some target => exact (h.modifyNode own _).addUse target user
  | some former =>
      cases new with
      | none => exact (dropped former).modifyNode own _
      | some target => exact ((dropped former).modifyNode own _).addUse target user

theorem relinkAll (h : Extends g k) (fresh : g.Fresh) {sites : List UseSite}
    (own : ∀ site ∈ sites, g.size ≤ site.user.index) (old new : Option NodeId) :
    Extends g (k.relinkAll sites old new) := by
  induction sites generalizing k with
  | nil => exact h
  | cons site sites ih =>
      have hfirst := h.relink fresh (own site List.mem_cons_self) site.slot old new
      exact ih hfirst fun other hother => own other (List.mem_cons_of_mem _ hother)

theorem setInput (h : Extends g k) (fresh : g.Fresh) (own : g.size ≤ user.index) (slot : Nat)
    (input : Option NodeId) : Extends g ((setInput user slot input).after k) := by
  rw [after_setInput]
  split
  · split
    · exact h.relink fresh own slot _ input
    · exact h
  · exact h

/-- New nodes are used by new nodes only. -/
theorem size_le_of_site (h : Extends g k) (wf : g.WellFormed) (wf' : k.WellFormed) {old : NodeId}
    (own : g.size ≤ old.index) {site : UseSite} (hsite : site ∈ k.usageSites old) :
    g.size ≤ site.user.index := by
  refine Nat.le_of_not_lt fun hlt => ?_
  obtain ⟨node, hnode, halive, -, hinput, -⟩ := wf'.mem_usageSites_iff.mp hsite
  rw [h.old hlt] at hnode
  have hheld := ((wf.node hnode).slotsFit halive).lt_size (mem_slots_iff.mpr ⟨_, hinput⟩)
  exact Nat.not_lt.mpr own hheld

/-- **The step.** -/
theorem construction (h : Extends g k) (wf : g.WellFormed) (wf' : k.WellFormed)
    (construction : Construction admits g.size m) : Extends g (m.after k) := by
  have fresh := wf.fresh
  cases construction with
  | create creation =>
      rcases creation.inserts k with hsame | ⟨node, -, hinsert⟩
      · rw [hsame]
        exact h
      · rw [hinsert]
        exact h.insert node
  | addDetached => exact h.allocate _
  | attach own =>
      rw [after_attach]
      split
      · exact (h.modifyNode own _).registerInputs _
      · exact h
  | setInput own slot input => exact h.setInput fresh own slot input
  | addInput own input =>
      rw [after_addInput]
      split
      · exact (h.modifyNode own _).addUse _ _
      · exact h
  | removeInput own slot =>
      rw [after_removeInput]
      split
      · exact (h.modifyNode own _).dropUse fresh own _
      · exact h
  | replaceInput own old new =>
      rw [after_replaceInput]
      split
      · next sites hcheck =>
        -- all the slots that are moved are slots of the one node
        obtain ⟨found, -, -, rfl, -⟩ := checkReplaceInput_eq_ok_iff.mp hcheck
        refine h.relinkAll fresh (fun site hsite => ?_) _ _
        obtain ⟨slot, -, rfl⟩ := List.mem_map.mp hsite
        exact own
      · exact h
  | replaceAtUsages own new =>
      rw [after_replaceAtUsages]
      split
      · next sites hcheck =>
        obtain ⟨-, rfl, -⟩ := checkReplaceAtUsages_eq_ok_iff.mp hcheck
        exact h.relinkAll fresh (fun site hsite => h.size_le_of_site wf wf' own hsite) _ _
      · exact h
  | replaceAtUsagesOfType own type new =>
      rw [after_replaceAtUsagesOfType]
      split
      · next sites hcheck =>
        obtain ⟨-, rfl, -⟩ := checkReplaceAtUsagesOfType_eq_ok_iff.mp hcheck
        refine h.relinkAll fresh (fun site hsite => ?_) _ _
        exact h.size_le_of_site wf wf' own (List.mem_filter.mp hsite).1
      · exact h
  | setStateAfter own | setLastLocationAccess own | setGuard own =>
      refine (congrArg (Extends g) (after_setOptional _ _ _ _ _)).mpr ?_
      split
      · exact h.setInput fresh own _ _
      · exact h
  | delete own =>
      rw [after_delete]
      split
      · exact h.bury fresh own _
      · exact h

/-- Taking back a new node leaves the old graph alone as well. -/
theorem discard (h : Extends g k) (fresh : g.Fresh) (own : g.size ≤ id.index) :
    Extends g (k.discard id) := by
  rw [Graph.discard]
  split
  · exact h.bury fresh own _
  · exact h

end Extends

/-- What is built upon a well-formed graph is well formed. -/
theorem Constructs.wellFormed (constructed : Constructs admits g h)
    (built : ∀ node, admits node → node.Built) (wf : g.WellFormed) : h.WellFormed :=
  constructed.reaches.wellFormed built wf

/-- **Whatever a tool builds of its own stands beside the old graph.** -/
theorem Constructs.extends (constructed : Constructs admits g h)
    (built : ∀ node, admits node → node.Built) (wf : g.WellFormed) : Extends g h := by
  induction constructed with
  | refl => exact extends_refl g
  | edit constructed construction ih =>
      exact ih.construction wf (constructed.wellFormed built wf) construction

end Graph

end SeaOfNodes
