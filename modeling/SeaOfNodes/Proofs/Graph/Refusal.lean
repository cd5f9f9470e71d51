import SeaOfNodes.Proofs.Graph.Invariance

/-!
# A failed edit changes nothing

An edit that fails leaves the graph on which it was run: not an equal one in what can be observed,
but the same value, with its nodes, its usage lists in their order, and its locations.

**`Reachable.run_eq_error`** says so of every operation, for all arguments, whether they make sense
or not.  It also says how an operation can fail: by a refusal, which names the violation that would
have been committed, or because marks were to be written at a node that does not exist.

### Where the graph matters

Edits consult the graph first and change it in one go, and then nothing can fail any more.  There
is one exception.  `setInput` accepts a slot because the layout describes it, and then writes to
the slot of that number; if a node lacked a slot of its layout, the write would be out of range.
That a graph which a run leads to has no such node is `WellPlaced.layout_le`, part of the invariant.
-/

namespace SeaOfNodes

namespace Edit

variable {α β : Type} {g : Graph}

/-- Run on `g`, the edit refuses or succeeds; if it refuses, `g` stays. -/
def Atomic (m : Edit α) (g : Graph) : Prop :=
  ∀ e g', m.run g = .error e g' → g' = g ∧ ∃ v, e = .violation v

/-- What succeeds does not fail. -/
theorem atomic_of_run_ok {m : Edit α} {a : α} {g' : Graph} (h : m.run g = .ok a g') :
    m.Atomic g := by
  intro e k hrun
  cases h.symm.trans hrun

/-- A check may come first. -/
theorem Atomic.ask_bind {f : Graph → Except Violation α} {k : α → Edit β}
    (h : ∀ a, f g = .ok a → (k a).Atomic g) : (ask f >>= k).Atomic g := by
  intro e g' hrun
  rw [run_ask_bind] at hrun
  rcases hcheck : f g with v | a
  · rw [hcheck] at hrun
    cases hrun
    exact ⟨rfl, v, rfl⟩
  · rw [hcheck] at hrun
    exact h a hcheck e g' hrun

end Edit

namespace Graph

open Edit

variable {α : Type} {admits : Node → Prop} {m : Edit α} {g g' : Graph}

/-- The edits that write marks at `id`, which must be a node. -/
inductive Marks (id : NodeId) : {α : Type} → Edit α → Prop where
  | setFlags (flags : NodeFlags) : Marks id (setFlags id flags)
  | setNodeBci (bci : UInt32) : Marks id (setNodeBci id bci)

/-! ## The edits -/

theorem atomic_add (node : Node) : (add node).Atomic g :=
  .ask_bind fun _ _ => atomic_of_run_ok rfl

/-- The slot that is written exists, because the node has all slots of its layout. -/
theorem atomic_setInput (wf : g.WellFormed) (user : NodeId) (slot : Nat)
    (input : Option NodeId) : (setInput user slot input).Atomic g := by
  refine .ask_bind fun node hcheck => ?_
  obtain ⟨hnode, halive, info, hinfo, -⟩ := checkSetInput_eq_ok_iff.mp hcheck
  have hslot : slot < node.slots.length :=
    lt_length_of_slotInfo ((wf.node hnode).layout_le (.inl halive)) hinfo
  dsimp only
  rw [if_pos hslot]
  split
  · exact atomic_of_run_ok rfl
  · exact atomic_of_run_ok rfl

/-- Setters of optional edges look for the slot of the role first. -/
theorem atomic_setOptional (wf : g.WellFormed) (id : NodeId) (type : InputType)
    (expected : String) (input : Option NodeId) :
    (do let slot ← ask (·.requireSlotOf id type expected); setInput id slot input).Atomic g :=
  .ask_bind fun slot _ => atomic_setInput wf id slot input

/-- Marks are written at a node that exists, and the edit fails at any other id. -/
theorem run_mark_eq_error {id : NodeId} {f : Node → Node} {e : Fault}
    (hrun : (do let _ ← fetch (·.node? id); modify fun g => g.modifyNode id f : Edit Unit).run g =
      .error e g') : g' = g ∧ g.node? id = none := by
  simp only [EStateM.run, bind, EStateM.bind, fetch] at hrun
  rcases hnode : g.node? id with _ | node
  · rw [hnode] at hrun
    cases hrun
    exact ⟨rfl, rfl⟩
  · rw [hnode] at hrun
    cases hrun

/-- **One operation.**  It is a refusal that leaves the graph, or marks for a node that does not
exist. -/
theorem Operation.of_run_error (h : Operation admits m) (wf : g.WellFormed) {e : Fault}
    (hrun : m.run g = .error e g') :
    g' = g ∧ ((∃ v, e = .violation v) ∨ ∃ id, Marks id m ∧ g.node? id = none) := by
  have refused (hatomic : m.Atomic g) :
      g' = g ∧ ((∃ v, e = .violation v) ∨ ∃ id, Marks id m ∧ g.node? id = none) :=
    (hatomic e g' hrun).imp_right .inl
  cases h with
  | add | newInstance | offsetAddress | frameState | nullCheckGuard | returnValue =>
      exact refused (atomic_add _)
  | addDetached | parameter | constInt | constNull | setBci | internLocation =>
      exact refused (atomic_of_run_ok rfl)
  | attach | addInput | removeInput | replaceInput | replaceAtUsages | replaceAtUsagesOfType
  | delete => exact refused (.ask_bind fun _ _ => atomic_of_run_ok rfl)
  | addRead | addCompareAndSwap => exact refused (.ask_bind fun _ _ => atomic_add _)
  | addWrite => exact refused (.ask_bind fun _ _ => .ask_bind fun _ _ => atomic_add _)
  | setInput user slot input => exact refused (atomic_setInput wf user slot input)
  | setStateAfter | setLastLocationAccess | setGuard =>
      exact refused (atomic_setOptional wf _ _ _ _)
  | setFlags id flags =>
      obtain ⟨hsame, hnode⟩ := run_mark_eq_error hrun
      exact ⟨hsame, .inr ⟨id, .setFlags flags, hnode⟩⟩
  | setNodeBci id bci =>
      obtain ⟨hsame, hnode⟩ := run_mark_eq_error hrun
      exact ⟨hsame, .inr ⟨id, .setNodeBci bci, hnode⟩⟩

/-- **A failed operation changes nothing.**  On a graph that a run leads to, an operation with any
arguments, and over nodes that were built in any way, that fails leaves the graph as it was.  Except
for marks that are written at an id which is not a node, it fails by a refusal. -/
theorem Reachable.run_eq_error (h : g.Reachable) (operation : Operation (fun _ => True) m)
    {e : Fault} (hrun : m.run g = .error e g') :
    g' = g ∧ ((∃ v, e = .violation v) ∨ ∃ id, Marks id m ∧ g.node? id = none) :=
  operation.of_run_error h.wellFormed hrun

/-- The load cannot be replaced by the store: the return could take its control from the store, and
that slot comes first, but not its value.  Neither slot is touched. -/
theorem run_eq_error_storeThenLoad :
    ∃ e, (replaceAtUsages ⟨6⟩ ⟨5⟩).run storeThenLoad = .error e storeThenLoad := by
  rcases hrun : (replaceAtUsages ⟨6⟩ ⟨5⟩).run storeThenLoad with ⟨a, g'⟩ | ⟨e, g'⟩
  · have hrefused : (storeThenLoad.checkReplaceAtUsages ⟨6⟩ ⟨5⟩).isOk = false := by
      decide +kernel
    unfold replaceAtUsages at hrun
    rw [run_ask_bind] at hrun
    rcases hcheck : storeThenLoad.checkReplaceAtUsages ⟨6⟩ ⟨5⟩ with v | sites
    · rw [hcheck] at hrun
      cases hrun
    · rw [hcheck] at hrefused
      cases hrefused
  · obtain ⟨hsame, -⟩ :=
      Reachable.run_eq_error reachable_storeThenLoad (.replaceAtUsages ⟨6⟩ ⟨5⟩) hrun
    exact ⟨e, congrArg (EStateM.Result.error e) hsame⟩

end Graph

end SeaOfNodes
