import SeaOfNodes.Lowering.Target
import SeaOfNodes.Proofs.Graph.After
import SeaOfNodes.Proofs.Graph.Lifecycle

/-!
# Emitting a block

A block is emitted node by node, each behind the one before it.  This module says what comes out of
it without running an edit: the nodes of the block, as a list (`Step.chain`), inserted one after the
other (`Graph.insertAll`).

The ids of the new nodes are consecutive, so that they are known before the first node exists:
`ArenaId.span` lists them.  **`run_emitBlock`** is the law of emission: a block whose nodes fit,
each in the graph that the nodes before it leave (`Graph.Emits`), is emitted, and its parts have
the ids that their positions give them.
-/

namespace SeaOfNodes

namespace ArenaId

variable {κ : Type} (id : ArenaId κ)

/-- The id that comes `n` allocations later. -/
def advance (n : Nat) : ArenaId κ := ⟨id.index + n⟩

/-- `n` consecutive ids, from `id` on. -/
def span (n : Nat) : List (ArenaId κ) := (List.range n).map id.advance

@[simp] theorem index_advance (n : Nat) : (id.advance n).index = id.index + n := rfl

@[simp] theorem advance_zero : id.advance 0 = id := rfl

@[simp] theorem advance_advance (m n : Nat) :
    (id.advance m).advance n = id.advance (m + n) :=
  ext_index (Nat.add_assoc _ _ _)

@[simp] theorem length_span (n : Nat) : (id.span n).length = n := by
  simp [span]

theorem span_add (m n : Nat) : id.span (m + n) = id.span m ++ (id.advance m).span n := by
  rw [span, List.range_add, List.map_append, List.map_map]
  refine congrArg (id.span m ++ ·) (List.map_congr_left fun j _ => ?_)
  exact (id.advance_advance m j).symm

theorem span_one : id.span 1 = [id] := rfl

theorem mem_span {other : ArenaId κ} {n : Nat} :
    other ∈ id.span n ↔ id.index ≤ other.index ∧ other.index < id.index + n := by
  rw [span, List.mem_map]
  constructor
  · rintro ⟨j, hj, rfl⟩
    have := List.mem_range.mp hj
    simp only [index_advance]
    omega
  · rintro ⟨hle, hlt⟩
    exact ⟨other.index - id.index, List.mem_range.mpr (by omega), ext_index (by simp; omega)⟩

theorem getElem?_span {n j : Nat} (h : j < n) : (id.span n)[j]? = some (id.advance j) := by
  rw [span, List.getElem?_map, List.getElem?_range h]
  rfl

/-- The last of consecutive ids, or what stands before them. -/
theorem getLastD_span (before : ArenaId κ) (n : Nat) :
    (id.span n).getLastD before = if n = 0 then before else id.advance (n - 1) := by
  cases n with
  | zero => rfl
  | succ n => rw [span_add, span_one, List.getLastD_concat, if_neg (Nat.succ_ne_zero n)]; rfl

end ArenaId

/-- A node as it stands in the graph after its insertion. -/
def Node.entered (bci : UInt32) (node : Node) : Node := { node with bci := bci, state := .attached }

namespace Step

/-- The node of a step behind `control`. -/
def node (step : Step) (control : NodeId) : Node :=
  .withInputs step.kind step.stamp (some control :: step.operands)

/-- The nodes of steps, one behind the other: the first behind `control`, with the id `first`. -/
def chain (control first : NodeId) : List Step → List Node
  | [] => []
  | step :: steps => step.node control :: chain first (first.advance 1) steps

@[simp] theorem length_chain (control first : NodeId) (steps : List Step) :
    (chain control first steps).length = steps.length := by
  induction steps generalizing control first with
  | nil => rfl
  | cons step steps ih => rw [chain, List.length_cons, ih, List.length_cons]

/-- The node at a position of a chain stands behind the node before it. -/
theorem getElem?_chain (control first : NodeId) (steps : List Step) (j : Nat) :
    (chain control first steps)[j]? =
      (steps[j]?).map fun step => step.node (if j = 0 then control else first.advance (j - 1)) := by
  induction steps generalizing control first j with
  | nil => rfl
  | cons step steps ih =>
      cases j with
      | zero => rfl
      | succ j =>
          rw [chain, List.getElem?_cons_succ, ih, List.getElem?_cons_succ,
            if_neg (Nat.succ_ne_zero j)]
          cases j with
          | zero => rfl
          | succ j =>
              rw [if_neg (Nat.succ_ne_zero j), ArenaId.advance_advance, Nat.add_comm]
              rfl

theorem chain_append (control first : NodeId) (steps more : List Step) :
    chain control first (steps ++ more) =
      chain control first steps ++
        chain ((first.span steps.length).getLastD control) (first.advance steps.length) more := by
  induction steps generalizing control first with
  | nil => rfl
  | cons step steps ih =>
      rw [List.cons_append, chain, ih, chain, List.cons_append, List.length_cons]
      congr 3
      · rw [Nat.add_comm, ArenaId.span_add, ArenaId.span_one, List.singleton_append,
          List.getLastD_cons]
      · rw [ArenaId.advance_advance, Nat.add_comm]

end Step

namespace Graph

variable {g : Graph} {node : Node} {x : NodeId}

/-- Insert nodes one after the other. -/
def insertAll (g : Graph) : List Node → Graph
  | [] => g
  | node :: nodes => (g.insert node).insertAll nodes

/-! ## Insertions -/

@[simp] theorem nextId_insert (g : Graph) (node : Node) :
    (g.insert node).nextId = g.nextId.advance 1 :=
  ArenaId.ext_index (g.size_insert node)

@[simp] theorem start_insertAll (g : Graph) (nodes : List Node) :
    (g.insertAll nodes).start = g.start := by
  induction nodes generalizing g with
  | nil => rfl
  | cons node nodes ih => rw [insertAll, ih, start_insert]

@[simp] theorem locations_insertAll (g : Graph) (nodes : List Node) :
    (g.insertAll nodes).locations = g.locations := by
  induction nodes generalizing g with
  | nil => rfl
  | cons node nodes ih => rw [insertAll, ih, locations_insert]

@[simp] theorem nextBci_insertAll (g : Graph) (nodes : List Node) :
    (g.insertAll nodes).nextBci = g.nextBci := by
  induction nodes generalizing g with
  | nil => rfl
  | cons node nodes ih => rw [insertAll, ih, nextBci_insert]

@[simp] theorem size_insertAll (g : Graph) (nodes : List Node) :
    (g.insertAll nodes).size = g.size + nodes.length := by
  induction nodes generalizing g with
  | nil => rfl
  | cons node nodes ih => rw [insertAll, ih, size_insert, List.length_cons]; omega

theorem insertAll_append (g : Graph) (nodes more : List Node) :
    g.insertAll (nodes ++ more) = (g.insertAll nodes).insertAll more := by
  induction nodes generalizing g with
  | nil => rfl
  | cons node nodes ih => rw [List.cons_append, insertAll, ih, insertAll]

/-- The inserted nodes follow the old ones. -/
theorem node?_insertAll (g : Graph) (nodes : List Node) (x : NodeId) :
    (g.insertAll nodes).node? x =
      if x.index < g.size then g.node? x
      else (nodes[x.index - g.size]?).map (Node.entered g.nextBci) := by
  induction nodes generalizing g with
  | nil =>
      rw [insertAll]
      split
      · rfl
      · next h => exact (g.node?_eq_none_iff x).mpr (Nat.le_of_not_lt h)
  | cons node nodes ih =>
      rw [insertAll, ih, size_insert, nextBci_insert, node?_insert]
      -- below the first new id, at it, or past it
      by_cases hlt : x.index < g.size
      · have hne : g.nextId ≠ x := by
          rintro rfl
          exact Nat.lt_irrefl _ hlt
        rw [if_pos (Nat.lt_succ_of_lt hlt), if_neg hne, if_pos hlt]
      · by_cases he : x.index = g.size
        · have hx : g.nextId = x := ArenaId.ext_index he.symm
          rw [if_pos (by omega), if_pos hx, if_neg hlt, he, Nat.sub_self]
          rfl
        · have hindex : x.index - g.size = x.index - (g.size + 1) + 1 := by omega
          rw [if_neg (by omega), if_neg hlt, hindex, List.getElem?_cons_succ]

theorem node?_insertAll_of_lt (nodes : List Node) (h : x.index < g.size) :
    (g.insertAll nodes).node? x = g.node? x := by
  rw [node?_insertAll, if_pos h]

theorem node?_insertAll_advance (g : Graph) (nodes : List Node) (j : Nat) :
    (g.insertAll nodes).node? (g.nextId.advance j) =
      (nodes[j]?).map (Node.entered g.nextBci) := by
  have hge : ¬ (g.nextId.advance j).index < g.size := Nat.not_lt.mpr (Nat.le_add_right _ _)
  have hsub : (g.nextId.advance j).index - g.size = j := Nat.add_sub_cancel_left _ _
  rw [node?_insertAll, if_neg hge, hsub]

/-- What serves goes on serving when nodes are inserted. -/
theorem Serves.insertAll {type : InputType} (h : g.Serves x type) (nodes : List Node) :
    (g.insertAll nodes).Serves x type :=
  h.mono fun found hfound halive =>
    ⟨found, (node?_insertAll_of_lt nodes (lt_size_of_node? hfound)).trans hfound, halive, rfl⟩

theorem Serves.insert {type : InputType} (h : g.Serves x type) (node : Node) :
    (g.insert node).Serves x type :=
  h.insertAll [node]

/-! ## Emission -/

/-- Each node of a chain fits in the graph that the nodes before it leave. -/
def Emits (g : Graph) (control : NodeId) : List Step → Prop
  | [] => True
  | step :: steps =>
    g.SlotsFit (step.node control) ∧ (g.insert (step.node control)).Emits g.nextId steps

variable {control : NodeId}

theorem emits_append {steps more : List Step} :
    g.Emits control (steps ++ more) ↔
      g.Emits control steps ∧
        (g.insertAll (Step.chain control g.nextId steps)).Emits
          ((g.nextId.span steps.length).getLastD control) more := by
  induction steps generalizing g control with
  | nil => exact (and_iff_right trivial).symm
  | cons step steps ih =>
      have hlast : ((g.nextId.span (steps.length + 1)).getLastD control) =
          ((g.nextId.advance 1).span steps.length).getLastD g.nextId := by
        rw [Nat.add_comm, ArenaId.span_add, ArenaId.span_one, List.singleton_append,
          List.getLastD_cons]
      rw [List.cons_append, Emits, Emits, ih, and_assoc, List.length_cons, hlast, Step.chain,
        insertAll, nextId_insert]

theorem run_emitStep {step : Step} (h : g.SlotsFit (step.node control)) :
    (emitStep control step).run g = .ok g.nextId (g.insert (step.node control)) := by
  have hcheck : g.checkInputs g.nextId (step.node control) = .ok () := checkInputs_eq_ok_iff.mpr h
  rw [emitStep, ← Step.node, run_add, hcheck]

theorem run_emitSteps {steps : List Step} (h : g.Emits control steps) :
    (emitSteps control steps).run g =
      .ok (g.nextId.span steps.length) (g.insertAll (Step.chain control g.nextId steps)) := by
  induction steps generalizing g control with
  | nil => rfl
  | cons step steps ih =>
      rw [emitSteps, run_bind_of_ok (run_emitStep h.1), run_bind_of_ok (ih h.2),
        List.length_cons, Nat.add_comm, ArenaId.span_add, ArenaId.span_one, nextId_insert]
      rfl

/-- **The law of emission.** -/
theorem run_emitBlock {block : Block} (h : g.Emits control block.steps) :
    (emitBlock control block).run g =
      .ok
        { access := g.nextId.advance block.before.length
          tail := g.nextId.advance (block.before.length + block.after.length)
          nodes := g.nextId.span block.steps.length }
        (g.insertAll (Step.chain control g.nextId block.steps)) := by
  rw [Block.steps, emits_append] at h
  obtain ⟨hbefore, haccess, hafter⟩ := h
  have hid : (g.insertAll (Step.chain control g.nextId block.before)).nextId =
      g.nextId.advance block.before.length :=
    ArenaId.ext_index ((g.size_insertAll _).trans (by rw [Step.length_chain]; rfl))
  rw [hid] at hafter
  have hrunAccess := run_emitStep haccess
  have hrunAfter := run_emitSteps hafter
  rw [hid] at hrunAccess
  rw [nextId_insert, hid, ArenaId.advance_advance] at hrunAfter
  rw [emitBlock, run_bind_of_ok (run_emitSteps hbefore), run_bind_of_ok hrunAccess,
    run_bind_of_ok hrunAfter, Block.steps, Step.chain_append, insertAll_append, Step.chain,
    ArenaId.advance_advance, insertAll]
  -- what is left is arithmetic of consecutive ids: the last one, and the list of all
  have htail : ((g.nextId.advance (block.before.length + 1)).span block.after.length).getLastD
      (g.nextId.advance block.before.length) =
        g.nextId.advance (block.before.length + block.after.length) := by
    rw [ArenaId.getLastD_span]
    split
    · next hempty => rw [hempty, Nat.add_zero]
    · rw [ArenaId.advance_advance]
      exact congrArg g.nextId.advance (by omega)
  have hnodes : g.nextId.span block.before.length ++ g.nextId.advance block.before.length ::
      (g.nextId.advance (block.before.length + 1)).span block.after.length =
        g.nextId.span (block.before ++ block.access :: block.after).length := by
    rw [List.length_append, List.length_cons, Nat.add_comm block.after.length, ArenaId.span_add,
      ArenaId.span_add _ 1, ArenaId.span_one, ArenaId.advance_advance, List.singleton_append]
  rw [htail, hnodes]
  rfl

end Graph

end SeaOfNodes
