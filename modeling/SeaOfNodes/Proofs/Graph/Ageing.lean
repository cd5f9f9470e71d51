import SeaOfNodes.Proofs.Graph.Verify

/-!
# How graphs age

A node lives in one direction.  It is allocated detached or attached, and from then on its state
only makes the moves of `NodeState.Moves`; it is the same node under the same id all the time.

`Graph.Ages g label g'` says what one change may do to the nodes of a graph, where `label` is the
node that is replaced.  **`Change.ages`** is the step: every change obeys it.  **`Path.aged`** is
the run: whatever the length of the path, nodes have only moved on, and those which were replaced
are those that label the path.
-/

namespace SeaOfNodes

namespace NodeState

/-- **The moves of the state of a node.** -/
inductive Moves : NodeState → NodeState → Prop where
  /-- A detached node is inserted. -/
  | attach : Moves .detached .attached
  /-- A detached node is deleted. -/
  | drop : Moves .detached .deleted
  /-- An attached node is deleted. -/
  | delete : Moves .attached .deleted
  /-- An attached node is replaced. -/
  | replace : Moves .attached .replaced

/-- Whether a node in this state has left the graph. -/
def isFinal : NodeState → Bool
  | replaced | deleted => true
  | _ => false

variable {s t : NodeState}

theorem Moves.isFinal_eq_false (h : Moves s t) : s.isFinal = false := by
  cases h <;> rfl

/-- **Final states are final.** -/
theorem eq_of_isFinal (final : s.isFinal = true) (h : Relation.ReflTransGen Moves s t) : t = s := by
  cases h.cases_head with
  | inl he => exact he.symm
  | inr hmoves =>
      obtain ⟨_, move, -⟩ := hmoves
      rw [move.isFinal_eq_false] at final
      cases final

end NodeState

namespace Graph

variable {admits : Node → Prop} {g g' h : Graph} {label : Option NodeId} {log : List NodeId}
  {id : NodeId} {node : Node} {state : NodeState}

theorem state?_of_node? (hnode : g.node? id = some node) : g.state? id = some node.state := by
  rw [state?, hnode, Option.map_some]

theorem exists_of_state? (hstate : g.state? id = some state) :
    ∃ node, g.node? id = some node ∧ node.state = state :=
  Option.map_eq_some_iff.mp hstate

/-! ## One change -/

/-- What happens to nodes in a change in which the node `label` is replaced. -/
structure Ages (g : Graph) (label : Option NodeId) (g' : Graph) : Prop where
  /-- No node is lost. -/
  size_le : g.size ≤ g'.size
  /-- A node stays what it is, and its state stays or moves. -/
  kept : ∀ {id node}, g.node? id = some node → ∃ node', g'.node? id = some node' ∧
    node'.kind = node.kind ∧ node'.stamp = node.stamp ∧
    (node'.state = node.state ∨ node.state.Moves node'.state)
  /-- A new node is detached or attached. -/
  born : ∀ {id node'}, g.node? id = none → g'.node? id = some node' →
    node'.state = .detached ∨ node'.state = .attached
  /-- The label is the node that becomes replaced. -/
  replaced : ∀ id, label = some id ↔
    g.state? id ≠ some .replaced ∧ g'.state? id = some .replaced
  /-- A node leaves the graph when no node uses it. -/
  unused : ∀ {id}, g.state? id = some .attached → g'.state? id ≠ some .attached →
    g.usages id = []
  /-- A node that has left the graph holds nothing and is in no use. -/
  gone : ∀ {id node'}, g'.node? id = some node' → node'.state.isFinal = true →
    node'.slots = [] ∧ g'.usages id = []

theorem size_le_of_kept (kept : ∀ id, (g.node? id).isSome = true → (g'.node? id).isSome = true) :
    g.size ≤ g'.size := by
  refine Nat.le_of_not_lt fun hlt => ?_
  have hsome : (g.node? ⟨g'.size⟩).isSome = true := by
    rw [Option.isSome_iff_ne_none, Ne, node?_eq_none_iff]
    exact Nat.not_le.mpr hlt
  have hnone : g'.node? ⟨g'.size⟩ = none := (node?_eq_none_iff ..).mpr (Nat.le_refl _)
  have hkept := kept _ hsome
  rw [hnone] at hkept
  cases hkept

/-- In a balanced graph, what has left the graph holds nothing and is in no use. -/
theorem Balanced.gone (b : g.Balanced) (hnode : g.node? id = some node)
    (final : node.state.isFinal = true) : node.slots = [] ∧ g.usages id = [] := by
  constructor
  · apply (b.placed hnode).slots_eq_nil
    cases hstate : node.state <;> rw [hstate] at final <;> first
      | exact .inl rfl
      | exact .inr rfl
      | cases final
  · apply b.usages_eq_nil
    rw [isAlive, hnode, Option.any_some, Node.isAlive]
    cases hstate : node.state <;> rw [hstate] at final <;> first
      | rfl
      | cases final

/-- The node that labels a change is there. -/
theorem Change.exists_of_label (change : Change admits g (some id) g') :
    ∃ node, g.node? id = some node := by
  cases change with
  | retire found => exact ⟨_, found⟩

/-- **The step: every change lets nodes move on only.** -/
theorem Change.ages (change : Change admits g label g') (b : g.Balanced) : Ages g label g' where
  size_le := by
    apply size_le_of_kept
    intro id hsome
    obtain ⟨node, hnode⟩ := Option.isSome_iff_exists.mp hsome
    obtain ⟨node', hnode', -⟩ := change.fate hnode
    exact Option.isSome_iff_exists.mpr ⟨node', hnode'⟩
  kept hnode := by
    obtain ⟨node', hnode', fate⟩ := change.fate hnode
    refine ⟨node', hnode', ?_⟩
    cases fate with
    | stays _ kind stamp state => exact ⟨kind, stamp, .inl state⟩
    | attached _ state => exact ⟨rfl, rfl, .inr (state ▸ .attach)⟩
    | deleted _ unused =>
        refine ⟨rfl, rfl, .inr ?_⟩
        rcases unused with state | ⟨state, -⟩
        · exact state ▸ .drop
        · exact state ▸ .delete
    | replaced _ state => exact ⟨rfl, rfl, .inr (state ▸ .replace)⟩
  born hnone hnode' := by
    rcases change.born hnone hnode' with ⟨_, -, rfl⟩ | ⟨_, -, rfl⟩
    · exact .inr rfl
    · exact .inl rfl
  replaced id := by
    cases hnode : g.node? id with
    | none =>
        constructor
        · rintro rfl
          obtain ⟨node, hfound⟩ := change.exists_of_label
          exact absurd (hnode.symm.trans hfound) nofun
        · rintro ⟨-, hreplaced⟩
          obtain ⟨node', hnode', hstate⟩ := exists_of_state? hreplaced
          rcases change.born hnode hnode' with ⟨_, -, rfl⟩ | ⟨_, -, rfl⟩ <;> cases hstate
    | some node =>
        obtain ⟨node', hnode', fate⟩ := change.fate hnode
        rw [state?_of_node? hnode, state?_of_node? hnode']
        cases fate with
        | stays other _ _ state => simp [other, state]
        | attached silent => simp [silent]
        | deleted silent => simp [silent]
        | replaced named state => simp [named, state]
  unused hattached hleft := by
    obtain ⟨node, hnode, hstate⟩ := exists_of_state? hattached
    obtain ⟨node', hnode', fate⟩ := change.fate hnode
    rw [state?_of_node? hnode'] at hleft
    cases fate with
    | stays _ _ _ state => exact absurd (congrArg some (state.trans hstate)) hleft
    | attached => exact absurd rfl hleft
    | deleted _ unused =>
        rcases unused with hdetached | ⟨-, hunused⟩
        · exact absurd (hdetached.symm.trans hstate) nofun
        · exact hunused
    | replaced _ _ unused => exact unused
  gone := (change.balanced b).gone

/-! ## Paths of changes -/

/-- `Path step g log g'`: steps lead from `g` to `g'`, and `log` lists their labels. -/
inductive Path (step : Graph → Option NodeId → Graph → Prop) (g : Graph) :
    List NodeId → Graph → Prop where
  /-- The empty path. -/
  | refl : Path step g [] g
  /-- One step more. -/
  | tail {log : List NodeId} {h g' : Graph} {label : Option NodeId} (path : Path step g log h)
      (last : step h label g') : Path step g (log ++ label.toList) g'

namespace Path

variable {step : Graph → Option NodeId → Graph → Prop} {log' : List NodeId}

theorem trans (path : Path step g log h) (path' : Path step h log' g') :
    Path step g (log ++ log') g' := by
  induction path' with
  | refl => rwa [List.append_nil]
  | tail _ last ih =>
      rw [← List.append_assoc]
      exact ih.tail last

/-- A path of which no step has a label. -/
theorem of_silent (silent : Relation.ReflTransGen (fun g g' => step g none g') g g') :
    Path step g [] g' := by
  induction silent with
  | refl => exact .refl
  | tail _ last ih => exact ih.tail last

/-- A step is a path. -/
theorem single (last : step g label g') : Path step g label.toList g' :=
  Path.refl.tail last

variable {step' : Graph → Option NodeId → Graph → Prop}

theorem mono (imp : ∀ {g label g'}, step g label g' → step' g label g')
    (path : Path step g log g') : Path step' g log g' := by
  induction path with
  | refl => exact .refl
  | tail _ last ih => exact ih.tail (imp last)

/-- What is true of steps from graphs with an invariant is true along a path. -/
theorem strengthen {invariant : Graph → Prop}
    (keeps : ∀ {g label g'}, step g label g' → invariant g → invariant g')
    (imp : ∀ {g label g'}, invariant g → step g label g' → step' g label g')
    (path : Path step g log g') (holds : invariant g) :
    Path step' g log g' ∧ invariant g' := by
  induction path with
  | refl => exact ⟨.refl, holds⟩
  | tail _ last ih => exact ⟨ih.1.tail (imp ih.2 last), keeps last ih.2⟩

end Path

theorem Revisions.path (revisions : Revisions admits g g') : Path (Change admits) g [] g' :=
  .of_silent revisions

/-! ## Any number of changes -/

/-- What has happened to nodes between two graphs, when the nodes `log` were replaced. -/
structure Aged (g : Graph) (log : List NodeId) (g' : Graph) : Prop where
  /-- No node is lost. -/
  size_le : g.size ≤ g'.size
  /-- A node stays what it is, and its state moves on, if anywhere. -/
  kept : ∀ {id node}, g.node? id = some node → ∃ node', g'.node? id = some node' ∧
    node'.kind = node.kind ∧ node'.stamp = node.stamp ∧
    Relation.ReflTransGen NodeState.Moves node.state node'.state
  /-- What became replaced is what is listed. -/
  replaced : ∀ id, id ∈ log ↔ g.state? id ≠ some .replaced ∧ g'.state? id = some .replaced
  /-- No node is replaced twice. -/
  nodup : log.Nodup

/-- A node that was replaced stays so. -/
theorem Aged.state?_eq_replaced (aged : Aged g log g') (hstate : g.state? id = some .replaced) :
    g'.state? id = some .replaced := by
  obtain ⟨node, hnode, hreplaced⟩ := exists_of_state? hstate
  obtain ⟨node', hnode', -, -, moves⟩ := aged.kept hnode
  rw [hreplaced] at moves
  rw [state?_of_node? hnode', NodeState.eq_of_isFinal rfl moves]

theorem Ages.aged (ages : Ages g label g') : Aged g label.toList g' where
  size_le := ages.size_le
  kept hnode := by
    obtain ⟨node', hnode', hkind, hstamp, hstate⟩ := ages.kept hnode
    refine ⟨node', hnode', hkind, hstamp, ?_⟩
    rcases hstate with hstate | move
    · rw [hstate]
    · exact .single move
  replaced id := by
    rw [Option.mem_toList]
    exact ages.replaced id
  nodup := by cases label <;> simp

theorem Aged.trans {log' : List NodeId} (aged : Aged g log h) (aged' : Aged h log' g') :
    Aged g (log ++ log') g' where
  size_le := Nat.le_trans aged.size_le aged'.size_le
  kept hnode := by
    obtain ⟨found, hfound, hkind, hstamp, moves⟩ := aged.kept hnode
    obtain ⟨node', hnode', hkind', hstamp', moves'⟩ := aged'.kept hfound
    exact ⟨node', hnode', hkind'.trans hkind, hstamp'.trans hstamp, moves.trans moves'⟩
  replaced id := by
    rw [List.mem_append, aged.replaced, aged'.replaced]
    constructor
    · rintro (⟨hbefore, hbetween⟩ | ⟨hbetween, hafter⟩)
      · exact ⟨hbefore, aged'.state?_eq_replaced hbetween⟩
      · exact ⟨fun hbefore => hbetween (aged.state?_eq_replaced hbefore), hafter⟩
    · rintro ⟨hbefore, hafter⟩
      by_cases hbetween : h.state? id = some .replaced
      · exact .inl ⟨hbefore, hbetween⟩
      · exact .inr ⟨hbetween, hafter⟩
  nodup := by
    refine List.nodup_append.mpr ⟨aged.nodup, aged'.nodup, ?_⟩
    rintro x hx _ hx' rfl
    exact ((aged'.replaced x).mp hx').1 ((aged.replaced x).mp hx).2

/-- **The run: whatever the path, nodes have moved on only.** -/
theorem Path.aged (path : Path Ages g log g') : Aged g log g' := by
  induction path with
  | refl =>
      refine ⟨Nat.le_refl _, fun hnode => ⟨_, hnode, rfl, rfl, .refl⟩, fun id => ?_, List.nodup_nil⟩
      exact iff_of_false List.not_mem_nil fun h => h.1 h.2
  | tail _ last ih => exact ih.trans last.aged

end Graph

end SeaOfNodes
