import SeaOfNodes.Proofs.Graph.Verify
import SeaOfNodes.Proofs.Lowering.Emission

/-!
# Graphs that only grow

A tool that builds an expansion creates nodes and leaves it at that.  `Graph.Creation` lists the
edits that it uses, and `Graph.Grows g h` says that any number of them, each with any arguments and
each succeeding or not, lead from `g` to `h`.

An expansion is not a chain, and its nodes need not have been planned.  But whatever the tool did,
it is as if a list of nodes had been inserted, each of which fits in the graph that the nodes before
it leave.  **`Grows.exists_nodes`** is the normal form, `g.insertAll nodes`; what is known of
insertions is then known of tools.

### The ids to come

Nodes are inserted at ids that occur nowhere yet: no usage list has them, and they have none.  A
well-formed graph is `Graph.Fresh` in this sense, and insertions keep it so.  Unlike the invariant
of the graph this asks nothing of the layout of the nodes, so that a tool may insert what it likes.
-/

namespace SeaOfNodes

namespace Graph

variable {α : Type} {admits : Node → Prop} {m : Edit α} {g h : Graph} {node : Node}
  {nodes more : List Node} {x d : NodeId}

/-- The edits that create an attached node, with any arguments.  `admits` says which nodes may be
built by hand. -/
inductive Creation (admits : Node → Prop) : {α : Type} → Edit α → Prop where
  | add {node : Node} (admitted : admits node) : Creation admits (add node)
  | parameter (index : UInt16) (stamp : Stamp) : Creation admits (parameter index stamp)
  | constInt (value : Int64) (kind : ValueKind) : Creation admits (constInt value kind)
  | constNull : Creation admits constNull
  | newInstance (control : NodeId) (size : UInt32) : Creation admits (newInstance control size)
  | offsetAddress (base offset : NodeId) : Creation admits (offsetAddress base offset)
  | frameState (bci : UInt32) (values : List NodeId) : Creation admits (frameState bci values)
  | nullCheckGuard (control object : NodeId) : Creation admits (nullCheckGuard control object)
  | returnValue (control : NodeId) (value : Option NodeId) :
      Creation admits (returnValue control value)
  | addRead (request : ReadRequest) : Creation admits (addRead request)
  | addWrite (request : WriteRequest) : Creation admits (addWrite request)
  | addCompareAndSwap (request : SwapRequest) : Creation admits (addCompareAndSwap request)

/-- `Grows admits g h`: nodes that were created one after the other lead from `g` to `h`. -/
inductive Grows (admits : Node → Prop) (g : Graph) : Graph → Prop where
  /-- Nothing was created. -/
  | refl : Grows admits g g
  /-- One more node was created, or refused. -/
  | create {h : Graph} {α : Type} {m : Edit α} (grown : Grows admits g h)
      (creation : Creation admits m) : Grows admits g (m.after h)

/-! ## Growing by runs -/

/-- Creations are operations. -/
theorem Creation.operation (creation : Creation admits m) : Operation admits m := by
  cases creation with
  | add admitted => exact .add admitted
  | parameter index stamp => exact .parameter index stamp
  | constInt value kind => exact .constInt value kind
  | constNull => exact .constNull
  | newInstance control size => exact .newInstance control size
  | offsetAddress base offset => exact .offsetAddress base offset
  | frameState bci values => exact .frameState bci values
  | nullCheckGuard control object => exact .nullCheckGuard control object
  | returnValue control value => exact .returnValue control value
  | addRead request => exact .addRead request
  | addWrite request => exact .addWrite request
  | addCompareAndSwap request => exact .addCompareAndSwap request

theorem composes_grows : Composes (Grows admits) where
  refl _ := .refl
  trans hgh hhk := by
    induction hhk with
    | refl => exact hgh
    | create _ creation ih => exact .create ih creation

theorem Grows.reaches (grown : Grows admits g h) : Reaches admits g h := by
  induction grown with
  | refl => exact .refl g
  | create _ creation ih => exact .edit ih creation.operation

/-! ## Insertions one after the other -/

/-- Each of the nodes fits in the graph that the nodes before it leave. -/
def Receives (g : Graph) : List Node → Prop
  | [] => True
  | node :: nodes => g.SlotsFit node ∧ (g.insert node).Receives nodes

theorem receives_append :
    g.Receives (nodes ++ more) ↔ g.Receives nodes ∧ (g.insertAll nodes).Receives more := by
  induction nodes generalizing g with
  | nil => exact (and_iff_right trivial).symm
  | cons node nodes ih => rw [List.cons_append, Receives, Receives, ih, insertAll, and_assoc]

/-! ## The normal form -/

/-- An edit that adds a node, or does nothing. -/
def Inserts (g h : Graph) : Prop := h = g ∨ ∃ node, g.SlotsFit node ∧ h = g.insert node

theorem inserts_add (node : Node) : g.Inserts ((add node).after g) := by
  rw [after_add]
  split
  · next hcheck => exact .inr ⟨node, checkInputs_eq_ok_iff.mp hcheck, rfl⟩
  · exact .inl rfl

theorem inserts_addLeaf {kind : NodeKind} (stamp : Stamp) (hlayout : kind.layout = []) :
    g.Inserts ((addLeaf kind stamp).after g) :=
  .inr ⟨_, slotsFit_leaf stamp hlayout, after_addLeaf stamp hlayout⟩

/-- A check may come first. -/
theorem inserts_ask_bind {β : Type} {f : Graph → Except Violation β} {k : β → Edit α}
    (hk : ∀ b, g.Inserts ((k b).after g)) : g.Inserts ((Edit.ask f >>= k).after g) := by
  rw [Edit.after_ask_bind]
  split
  · exact hk _
  · exact .inl rfl

/-- **A creation inserts one node that fits**, or is refused and does nothing. -/
theorem Creation.inserts (creation : Creation admits m) (g : Graph) : g.Inserts (m.after g) := by
  cases creation with
  | add | newInstance | offsetAddress | frameState | nullCheckGuard | returnValue =>
      exact inserts_add _
  | parameter | constInt | constNull => exact inserts_addLeaf _ rfl
  | addRead | addCompareAndSwap => exact inserts_ask_bind fun _ => inserts_add _
  | addWrite => exact inserts_ask_bind fun _ => inserts_ask_bind fun _ => inserts_add _

/-- **What has grown is what it was with nodes inserted.** -/
theorem Grows.exists_nodes (grown : Grows admits g h) :
    ∃ nodes, g.Receives nodes ∧ h = g.insertAll nodes := by
  induction grown with
  | refl => exact ⟨[], trivial, rfl⟩
  | create _ creation ih =>
      obtain ⟨nodes, hreceives, rfl⟩ := ih
      rcases creation.inserts (g.insertAll nodes) with hsame | ⟨node, hfit, hinsert⟩
      · exact ⟨nodes, hreceives, hsame⟩
      · refine ⟨nodes ++ [node], receives_append.mpr ⟨hreceives, hfit, trivial⟩, ?_⟩
        rw [insertAll_append, hinsert]
        rfl

/-! ## The ids to come -/

/-- Ids that are not allocated yet are in no use, and use nothing. -/
def Fresh (g : Graph) : Prop :=
  ∀ x : NodeId, g.size ≤ x.index → g.usages x = [] ∧ ∀ d, x ∉ g.usages d

theorem WellFormed.fresh (wf : g.WellFormed) : g.Fresh := by
  intro x hx
  have hdead : g.isAlive x = false := by
    rw [isAlive, (g.node?_eq_none_iff x).mpr hx]
    rfl
  exact ⟨wf.usages_eq_nil hdead, fun d => List.count_eq_zero.mp (wf.count_usages_eq_zero hdead d)⟩

/-- A node that fits holds nothing that is not allocated yet. -/
theorem SlotsFit.lt_size (hfit : g.SlotsFit node) (hheld : some d ∈ node.slots) :
    d.index < g.size := by
  obtain ⟨slot, hslot⟩ := mem_slots_iff.mp hheld
  obtain ⟨info, -, hfits⟩ := hfit slot (lt_length_of_input hslot)
  rw [hslot] at hfits
  obtain ⟨found, hfound, -⟩ := hfits
  exact lt_size_of_node? hfound

theorem SlotsFit.count_eq_zero (hfit : g.SlotsFit node) (hx : g.size ≤ x.index) :
    node.slots.count (some x) = 0 := by
  rw [List.count_eq_zero]
  intro hheld
  exact absurd (hfit.lt_size hheld) (Nat.not_lt.mpr hx)

/-- An insertion appends the new node to the list of whatever it holds, once for every slot. -/
theorem usages_insert (g : Graph) (node : Node) (d : NodeId) :
    (g.insert node).usages d =
      g.usages d ++ List.replicate (node.slots.count (some d)) g.nextId := by
  unfold insert
  rw [usages_registerInputs d (by rw [node?_allocate, if_pos rfl]), usages_allocate]

/-- Insertions keep the ids to come apart. -/
theorem Fresh.insert (fresh : g.Fresh) (hfit : g.SlotsFit node) : (g.insert node).Fresh := by
  intro x hx
  rw [size_insert] at hx
  obtain ⟨hunused, huses⟩ := fresh x (by omega)
  refine ⟨?_, fun d hmem => ?_⟩
  · rw [usages_insert, hunused, hfit.count_eq_zero (by omega)]
    rfl
  · rw [usages_insert] at hmem
    rcases List.mem_append.mp hmem with hold | hnew
    · exact huses d hold
    · rw [List.eq_of_mem_replicate hnew] at hx
      exact Nat.not_succ_le_self g.size hx

end Graph

end SeaOfNodes
