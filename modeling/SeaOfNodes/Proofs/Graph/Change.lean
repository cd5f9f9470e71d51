import SeaOfNodes.Access.Request
import SeaOfNodes.Proofs.Graph.Lifecycle
import SeaOfNodes.Proofs.Graph.Sites

/-!
# The changes of a graph

Everything that happens to a graph is one of a few changes, each made under the condition that its
edit has checked.  `Graph.Change` lists them.  A property of runs is a property of changes: an
argument about runs opens neither an edit nor a check, but goes through this list.

A node that enters the graph stems from one of the sources in `Graph.Enters`: it was built by hand,
by a constructor of the graph, or for a request that was checked against its location.  Nodes that
are built by hand are restricted by a predicate `admits`; `Node.Built` is the one that says no more
than that a node was made by the constructors of `Node`.  A change is labelled with the node that it
gives up as replaced, if it does so.

**`Change.balanced`** is the step of the invariant: every change keeps `Graph.Balanced`.  What a
change makes of a single node is its `Fate`; **`Change.fate`** is the one place where the changes
are gone through for that.  That nodes keep their fixed slots follows, as long as only built nodes
enter (`Change.wellFormed`).
-/

namespace SeaOfNodes

/-- A node as it leaves the constructors of `Node`, apart from marks. -/
def Node.Built (node : Node) : Prop :=
  ∃ kind stamp inputs bci flags,
    node = { Node.withInputs kind stamp inputs with bci := bci, flags := flags }

namespace Node

theorem built_withInputs (kind : NodeKind) (stamp : Stamp) (inputs : List (Option NodeId)) :
    (withInputs kind stamp inputs).Built :=
  ⟨kind, stamp, inputs, 0, {}, rfl⟩

/-- A node that was built, and is no access. -/
def Plain (node : Node) : Prop := node.Built ∧ node.kind.isLowerable = false

/-- A node that was built has all its fixed slots. -/
theorem Built.layout_le {node : Node} (h : node.Built) :
    node.kind.layout.length ≤ node.slots.length := by
  obtain ⟨kind, stamp, inputs, bci, flags, rfl⟩ := h
  show kind.layout.length ≤ (withInputs kind stamp inputs).slots.length
  rw [length_slots_withInputs]
  exact Nat.le_max_right _ _

end Node

namespace Graph

variable {admits : Node → Prop}

/-- Where a node that enters `g` stems from. -/
inductive Enters (admits : Node → Prop) (g : Graph) : Node → Prop where
  /-- It was built by hand. -/
  | given {node : Node} (admitted : admits node) : Enters admits g node
  /-- It was built by a constructor for nodes that lowering leaves alone. -/
  | plain {node : Node} (built : node.Built) (kind : node.kind.isLowerable = false) :
      Enters admits g node
  /-- It is a read that was requested. -/
  | read {request : ReadRequest}
      (address : g.checkAddress request.address request.location = .ok ()) :
      Enters admits g (g.readNode request)
  /-- It is a write that was requested. -/
  | write {request : WriteRequest}
      (address : g.checkAddress request.address request.location = .ok ())
      (value : g.checkValue request.value request.location = .ok ()) :
      Enters admits g (writeNode request)
  /-- It is a compare-and-swap that was requested. -/
  | swap {request : SwapRequest} (operands : g.checkSwap request = .ok ()) :
      Enters admits g (swapNode request)

/-- A change of a graph, under the condition that was checked before it is made.  It is labelled
with the node that it gives up as replaced. -/
inductive Change (admits : Node → Prop) : Graph → Option NodeId → Graph → Prop where
  /-- A node is allocated and inserted. -/
  | insert {g : Graph} {node : Node} (enters : Enters admits g node) (fit : g.SlotsFit node) :
      Change admits g none (g.insert node)
  /-- A node is allocated without being inserted. -/
  | allocate {g : Graph} {node : Node} (admitted : admits node) :
      Change admits g none (g.allocate { node with bci := g.nextBci, state := .detached })
  /-- A detached node is inserted. -/
  | attach {g : Graph} {id : NodeId} {node : Node} (found : g.node? id = some node)
      (state : node.state = .detached) (fit : g.SlotsFit node) :
      Change admits g none
        ((g.modifyNode id fun node => { node with state := .attached }).registerInputs id)
  /-- Slots are moved from one input to another. -/
  | move {g : Graph} {sites : List UseSite} {old new : Option NodeId}
      (holds : ∀ site ∈ sites, g.Holds site old) (fits : ∀ site ∈ sites, g.Fits site.info new)
      (apart : sites.Pairwise UseSite.Apart) : Change admits g none (g.relinkAll sites old new)
  /-- A node receives a further value. -/
  | append {g : Graph} {user target : NodeId} {node : Node} {type : InputType}
      (found : g.node? user = some node) (alive : node.isAlive = true)
      (variadic : node.kind.variadic = some type) (serves : g.Serves target type) :
      Change admits g none
        ((g.modifyNode user fun node => { node with slots := node.slots ++ [some target] }).addUse
          target user)
  /-- A node loses a further value. -/
  | erase {g : Graph} {user target : NodeId} {node : Node} {slot : Nat}
      (found : g.node? user = some node) (alive : node.isAlive = true)
      (holds : node.input slot = some target) (fixed : node.kind.layout.length ≤ slot) :
      Change admits g none
        ((g.modifyNode user fun node => { node with slots := node.slots.eraseIdx slot }).dropUse
          target user)
  /-- A node that is in no use is deleted. -/
  | delete {g : Graph} {id : NodeId} {node : Node} (found : g.node? id = some node)
      (unused : node.state = .detached ∨ node.state = .attached ∧ g.usages id = []) :
      Change admits g none (g.bury id .deleted)
  /-- A node that is in no use any more is given up as replaced. -/
  | retire {g : Graph} {id : NodeId} {node : Node} (found : g.node? id = some node)
      (alive : node.isAlive = true) (unused : g.usages id = []) :
      Change admits g (some id) (g.bury id .replaced)
  /-- The marks of a node change. -/
  | mark {g : Graph} (id : NodeId) (bci : Node → UInt32) (flags : Node → NodeFlags) :
      Change admits g none
        (g.modifyNode id fun node => { node with bci := bci node, flags := flags node })
  /-- The bytecode index of the nodes to come changes. -/
  | bci {g : Graph} (bci : UInt32) : Change admits g none { g with nextBci := bci }
  /-- A location is interned. -/
  | intern {g : Graph} (identity : LocationIdentity) :
      Change admits g none { g with locations := (g.locations.intern identity).2 }

variable {g g' : Graph} {label : Option NodeId} {id : NodeId} {node : Node}

/-- Whatever enters a graph has all its fixed slots. -/
theorem Enters.layout_le (h : Enters admits g node) (built : ∀ node, admits node → node.Built) :
    node.kind.layout.length ≤ node.slots.length := by
  cases h with
  | given admitted => exact (built _ admitted).layout_le
  | plain built => exact built.layout_le
  | read => exact (Node.built_withInputs _ _ _).layout_le
  | write => exact (Node.built_withInputs _ _ _).layout_le
  | swap => exact (Node.built_withInputs _ _ _).layout_le

theorem Enters.mono (h : Enters admits g node) {admits' : Node → Prop}
    (weaker : ∀ node, admits node → admits' node) : Enters admits' g node := by
  cases h with
  | given admitted => exact .given (weaker _ admitted)
  | plain built kind => exact .plain built kind
  | read address => exact .read address
  | write address value => exact .write address value
  | swap operands => exact .swap operands

theorem Change.mono (h : Change admits g label g') {admits' : Node → Prop}
    (weaker : ∀ node, admits node → admits' node) : Change admits' g label g' := by
  cases h with
  | insert enters fit => exact .insert (enters.mono weaker) fit
  | allocate admitted => exact .allocate (weaker _ admitted)
  | attach found state fit => exact .attach found state fit
  | move holds fits apart => exact .move holds fits apart
  | append found alive variadic serves => exact .append found alive variadic serves
  | erase found alive holds fixed => exact .erase found alive holds fixed
  | delete found unused => exact .delete found unused
  | retire found alive unused => exact .retire found alive unused
  | mark id bci flags => exact .mark id bci flags
  | bci bci => exact .bci bci
  | intern identity => exact .intern identity

/-- **Every change keeps the invariant.** -/
theorem Change.balanced (h : Change admits g label g') (b : g.Balanced) : g'.Balanced := by
  cases h with
  | insert enters fit => exact b.insert fit
  | allocate admitted => exact b.allocate rfl
  | attach found state fit => exact b.attach found state fit
  | move holds fits apart => exact b.relinkAll holds fits apart
  | append found alive variadic serves => exact b.append found alive variadic serves
  | erase found alive holds fixed => exact b.erase found alive holds fixed
  | delete found unused =>
      refine b.bury found ?_ (.inr rfl)
      intro halive
      rcases unused with hdetached | ⟨-, hunused⟩
      · unfold Node.isAlive at halive
        rw [hdetached] at halive
        cases halive
      · exact hunused
  | retire found alive unused => exact b.bury found (fun _ => unused) (.inl rfl)
  | mark id bci flags => exact b.modifyMarks id (fun _ => rfl) (fun _ => rfl) fun _ => rfl
  | bci => exact b.congr (fun _ => rfl) (fun _ => rfl) rfl b.any b.indexed
  | intern identity =>
      exact b.congr (fun _ => rfl) (fun _ => rfl) rfl
        (b.indexed.get?_anyId_intern b.any identity) (b.indexed.intern identity)

/-! ## What becomes of a node -/

/-- What a change with the label `label` makes of the node at `id`. -/
inductive Fate (g : Graph) (label : Option NodeId) (id : NodeId) (node : Node) : Node → Prop where
  /-- It stays what it is and where it is, and neither loses a fixed slot nor gets one. -/
  | stays {node' : Node} (other : label ≠ some id) (kind : node'.kind = node.kind)
      (stamp : node'.stamp = node.stamp) (state : node'.state = node.state)
      (layout : node.kind.layout.length ≤ node'.slots.length ↔
        node.kind.layout.length ≤ node.slots.length) : Fate g label id node node'
  /-- It is inserted. -/
  | attached (silent : label = none) (state : node.state = .detached) :
      Fate g label id node { node with state := .attached }
  /-- It is deleted, in no use. -/
  | deleted (silent : label = none)
      (unused : node.state = .detached ∨ node.state = .attached ∧ g.usages id = []) :
      Fate g label id node { node with slots := [], state := .deleted }
  /-- It is replaced, in no use any more. -/
  | replaced (named : label = some id) (state : node.state = .attached)
      (unused : g.usages id = []) :
      Fate g label id node { node with slots := [], state := .replaced }

theorem Fate.refl (other : label ≠ some id) : Fate g label id node node :=
  .stays other rfl rfl rfl .rfl

/-- A change that is seen as an update of the node at `id` decides about this node only. -/
theorem exists_fate {f : Node → Node} {x : NodeId}
    (hfind : ∀ x, g'.node? x = if id = x then (g.node? x).map f else g.node? x)
    (hx : g.node? x = some node) (hchanged : id = x → Fate g label x node (f node))
    (hother : id ≠ x → label ≠ some x) :
    ∃ node', g'.node? x = some node' ∧ Fate g label x node node' := by
  rw [hfind, hx]
  split
  · next he => exact ⟨f node, rfl, hchanged he⟩
  · next hne => exact ⟨node, rfl, .refl (hother hne)⟩

/-- **What a change makes of a node that exists.** -/
theorem Change.fate (h : Change admits g label g') (hnode : g.node? id = some node) :
    ∃ node', g'.node? id = some node' ∧ Fate g label id node node' := by
  have hold : g.nextId ≠ id := by
    rintro rfl
    rw [node?_nextId] at hnode
    cases hnode
  cases h with
  | insert => exact ⟨node, by rw [node?_insert, if_neg hold, hnode], .refl nofun⟩
  | allocate => exact ⟨node, by rw [node?_allocate, if_neg hold.symm, hnode], .refl nofun⟩
  | @attach user _ found state =>
      have hfind := fun x => (node?_registerInputs _ user x).trans
        (g.node?_modifyNode user x fun node => { node with state := .attached })
      refine exists_fate hfind hnode ?_ nofun
      rintro rfl
      cases found.symm.trans hnode
      exact .attached rfl state
  | move =>
      refine ⟨_, (node?_relinkAll g id _ _ _).trans (congrArg _ hnode), ?_⟩
      exact .stays nofun rfl rfl rfl (by rw [length_refill])
  | @append user target found type hfound _ variadic =>
      have hfind := fun x => (node?_addUse _ x target user).trans
        (g.node?_modifyNode user x fun node => { node with slots := node.slots ++ [some target] })
      refine exists_fate hfind hnode ?_ nofun
      rintro rfl
      cases hfound.symm.trans hnode
      -- a node that takes further values has no fixed slots
      have hlayout := NodeKind.layout_of_variadic variadic
      exact .stays nofun rfl rfl rfl (by simp [hlayout])
  | @erase user target found slot hfound _ holds fixed =>
      have hfind := fun x => (node?_dropUse _ x target user).trans
        (g.node?_modifyNode user x fun node => { node with slots := node.slots.eraseIdx slot })
      refine exists_fate hfind hnode ?_ nofun
      rintro rfl
      cases hfound.symm.trans hnode
      have hslot := lt_length_of_input holds
      refine .stays nofun rfl rfl rfl ?_
      simp only [List.length_eraseIdx_of_lt hslot]
      omega
  | @delete user _ found unused =>
      refine exists_fate (fun x => g.node?_bury user x _) hnode ?_ nofun
      rintro rfl
      cases found.symm.trans hnode
      exact .deleted rfl unused
  | @retire user _ found alive unused =>
      refine exists_fate (fun x => g.node?_bury user x _) hnode ?_ fun hne he => ?_
      · rintro rfl
        cases found.symm.trans hnode
        exact .replaced rfl ((NodeState.isAlive_iff _).mp alive) unused
      · exact hne (Option.some.inj he)
  | mark user =>
      refine exists_fate (fun x => g.node?_modifyNode user x _) hnode (fun _ => ?_) nofun
      exact .stays nofun rfl rfl rfl .rfl
  | bci | intern => exact ⟨node, hnode, .refl nofun⟩

/-- A node that is new was inserted or allocated. -/
theorem Change.born (h : Change admits g label g') (hnone : g.node? id = none)
    (hnode : g'.node? id = some node) :
    (∃ entered, Enters admits g entered ∧
      node = { entered with bci := g.nextBci, state := .attached }) ∨
    ∃ entered, admits entered ∧ node = { entered with bci := g.nextBci, state := .detached } := by
  have old : ∀ {f : Node → Node} {user : NodeId},
      ¬ (if user = id then (g.node? id).map f else g.node? id) = some node := by
    intro f user
    rw [hnone]
    split <;> nofun
  cases h with
  | insert enters =>
      rw [node?_insert] at hnode
      split at hnode
      · cases hnode
        exact .inl ⟨_, enters, rfl⟩
      · exact absurd (hnone.symm.trans hnode) nofun
  | allocate admitted =>
      rw [node?_allocate] at hnode
      split at hnode
      · cases hnode
        exact .inr ⟨_, admitted, rfl⟩
      · exact absurd (hnone.symm.trans hnode) nofun
  | attach => exact absurd ((node?_registerInputs ..).symm.trans hnode) (by simpa using old)
  | move => 
      rw [node?_relinkAll, hnone] at hnode
      cases hnode
  | append => exact absurd ((node?_addUse ..).symm.trans hnode) (by simpa using old)
  | erase => exact absurd ((node?_dropUse ..).symm.trans hnode) (by simpa using old)
  | delete | retire => exact absurd ((node?_bury ..).symm.trans hnode) old
  | mark => exact absurd ((node?_modifyNode ..).symm.trans hnode) old
  | bci | intern => exact absurd (hnone.symm.trans hnode) nofun

/-- Nodes keep their fixed slots, if the nodes that enter have theirs. -/
theorem Change.keepsLayout (h : Change admits g label g')
    (built : ∀ node, admits node → node.Built)
    (keeps : ∀ {id node}, g.node? id = some node → node.KeepsLayout)
    (hnode : g'.node? id = some node) : node.KeepsLayout := by
  cases hold : g.node? id with
  | none =>
      rcases h.born hold hnode with ⟨entered, enters, rfl⟩ | ⟨entered, admitted, rfl⟩
      · exact fun _ => enters.layout_le built
      · exact fun _ => (built entered admitted).layout_le
  | some before =>
      have hbefore := keeps hold
      obtain ⟨after, hafter, fate⟩ := h.fate hold
      cases hafter.symm.trans hnode
      cases fate with
      | stays _ kind _ state layout =>
          intro hstate
          rw [kind]
          rw [Node.isAlive, state] at hstate
          exact layout.mpr (hbefore hstate)
      | attached _ state => exact fun _ => hbefore (.inr state)
      | deleted | replaced => rintro (h | h) <;> cases h

/-- **Every change keeps well-formed graphs well formed**, if the nodes that enter were built. -/
theorem Change.wellFormed (h : Change admits g label g') (built : ∀ node, admits node → node.Built)
    (wf : g.WellFormed) : g'.WellFormed where
  toBalanced := h.balanced wf.toBalanced
  keepsLayout := h.keepsLayout built wf.keepsLayout

end Graph

end SeaOfNodes
