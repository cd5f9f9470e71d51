import SeaOfNodes.Proofs.Lowering.History
import SeaOfNodes.Proofs.Lowering.Rewiring

/-!
# A pass that stops

The pass computes its order once and stops at the first node that cannot be lowered.  By then the
nodes before it were replaced, usages were moved, and nodes were allocated and taken back.
`Graph.Leaves` is what there is to say about the nodes that were there before: those that were
lowered are replaced, and all others are still attached, with the kind that they had.  Lowering one
node leaves it (`WellFormed.leaves_of_run_ok`), a lowering that fails leaves everything
(`WellFormed.leaves_of_run_error`), and **`Reachable.stopped_pass`** says it of the pass.

### What is load-bearing

Tools are asked to touch no nodes but those that they have allocated in the same call
(`Graph.Constructs`); tools that only add nodes do so (`Enlarges.constructs`).  What is taken back
is allocated later than the nodes of the order, so that taking back cannot hit one of them
(`Extends.discardSince`).  It does not matter that an accepted replacement may fail half-way, with
its usages moved: they are moved within attached nodes, and the node itself stays.

Nothing is asked of the nodes that replacements list.  The pass looks up their kinds, and where one
does not exist it does not stop with a violation.  Verification never stops it either, since the
graph is well formed whenever all nodes were lowered.
-/

namespace SeaOfNodes

/-- Whether a computation of a tool ends with a violation. -/
def ToolM.violates {σ α : Type} (m : ToolM σ α) (g : Graph) (memory : σ) : Bool :=
  match m.run (g, memory) with
  | .error (.violation _) _ => true
  | _ => false

theorem ToolM.violates_iff {σ α : Type} {m : ToolM σ α} {g : Graph} {memory : σ} :
    m.violates g memory = true ↔
      ∃ v g' memory', m.run (g, memory) = .error (.violation v) (g', memory') := by
  constructor
  · intro h
    unfold ToolM.violates at h
    split at h
    · next v s hrun => exact ⟨v, s.1, s.2, hrun⟩
    · cases h
  · rintro ⟨v, g', memory', hrun⟩
    rw [ToolM.violates, hrun]

namespace Graph

variable {σ : Type} {tool : LoweringTool σ} {memory memory' : σ} {g g' h : Graph}
  {done more ids : List NodeId} {node : Node} {id x : NodeId} {r : Replacement} {v : Violation}

/-! ## What lowering some nodes leaves -/

/-- **What is left of `g` when the nodes `done` were lowered.** -/
structure Leaves (g : Graph) (done : List NodeId) (g' : Graph) : Prop where
  /-- The invariants are kept. -/
  wellFormed : g'.WellFormed
  /-- Nodes have moved on only, and those that became replaced are the ones that were lowered. -/
  aged : Aged g done g'
  /-- The others are attached if they were. -/
  attached : ∀ {x}, g.isAlive x = true → x ∉ done → g'.isAlive x = true

namespace Leaves

theorem trans (first : Leaves g done h) (second : Leaves h more g') :
    Leaves g (done ++ more) g' where
  wellFormed := second.wellFormed
  aged := first.aged.trans second.aged
  attached halive hx := by
    rw [List.mem_append, not_or] at hx
    exact second.attached (first.attached halive hx.1) hx.2

theorem state?_eq_replaced_iff (leaves : Leaves g done g') :
    g'.state? x = some .replaced ↔ g.state? x = some .replaced ∨ x ∈ done := by
  constructor
  · intro hreplaced
    by_cases hbefore : g.state? x = some .replaced
    · exact .inl hbefore
    · exact .inr ((leaves.aged.replaced x).mpr ⟨hbefore, hreplaced⟩)
  · rintro (hbefore | hx)
    · exact leaves.aged.state?_eq_replaced hbefore
    · exact ((leaves.aged.replaced x).mp hx).2

/-- An attached node that was not lowered is still attached, and what it was. -/
theorem exists_liveNode? (leaves : Leaves g done g') (hlive : g.liveNode? x = some node)
    (hx : x ∉ done) :
    ∃ node', g'.liveNode? x = some node' ∧ node'.kind = node.kind ∧ node'.stamp = node.stamp := by
  obtain ⟨hnode, halive⟩ := liveNode?_eq_some_iff.mp hlive
  obtain ⟨node', hnode', hkind, hstamp, -⟩ := leaves.aged.kept hnode
  obtain ⟨found, hfound, halive'⟩ := isAlive_iff_exists.mp
    (leaves.attached (isAlive_iff_exists.mpr ⟨node, hnode, halive⟩) hx)
  cases hfound.symm.trans hnode'
  exact ⟨node', liveNode?_of_isAlive hnode' halive', hkind, hstamp⟩

end Leaves

/-! ## One node -/

/-- **Lowering a node leaves all but the node.** -/
theorem WellFormed.leaves_of_run_ok (wf : g.WellFormed)
    (constructed : Constructs Node.Built g ((tool id).after g memory))
    (hlower : (lowerNode tool id).run (g, memory) = .ok r (g', memory')) : Leaves g [id] g' := by
  have built : ∀ node : Node, node.Built → node.Built := fun _ hnode => hnode
  obtain ⟨h, hrun, hcheck, hsubstitute⟩ := exists_of_run_lowerNode hlower
  have hafter : (tool id).after g memory = h := by rw [ToolM.after, hrun]
  rw [hafter] at constructed
  have wf' := constructed.wellFormed built wf
  have extends' := constructed.extends built wf
  have path : Path (Change Node.Built) g [id] g' := by
    have substituted := @path_substitute Node.Built h wf'.toBalanced id r
    rw [hsubstitute] at substituted
    exact (constructed.runs.path wf.toBalanced).trans substituted
  refine ⟨path.changes.wellFormed built wf, path.aged_of_balanced wf.toBalanced, ?_⟩
  intro x halive hx
  obtain ⟨node, hnode, hattached⟩ := isAlive_iff_exists.mp halive
  have hold : h.node? x = some node := (extends'.old (lt_size_of_node? hnode)).trans hnode
  have rewires := wf'.rewires hcheck hsubstitute
  obtain ⟨slots, -, hkept⟩ := rewires.kept (List.mem_singleton.not.mp hx) hold
  exact isAlive_iff_exists.mpr ⟨_, hkept, hattached⟩

/-- **A lowering that fails leaves all nodes.**  What the tool has done was taken back, or usages
were moved, and neither detaches an older node. -/
theorem WellFormed.leaves_of_run_error (wf : g.WellFormed)
    (constructed : Constructs Node.Built g ((tool id).after g memory))
    (hlower : (lowerNode tool id).run (g, memory) = .error (.violation v) (g', memory')) :
    Leaves g [] g' := by
  have built : ∀ node : Node, node.Built → node.Built := fun _ hnode => hnode
  have wf' := constructed.wellFormed built wf
  have extends' := constructed.extends built wf
  have path : Path (Change Node.Built) g (lowerings tool (fun _ _ _ => []) id g memory)
      ((lowerNode tool id).after g memory) :=
    path_lowerNode wf.toBalanced (constructed.runs.path wf.toBalanced)
  rw [lowerings, ToolM.after, hlower, List.append_nil, ite_self] at path
  refine ⟨path.changes.wellFormed built wf, path.aged_of_balanced wf.toBalanced, ?_⟩
  intro x halive _
  obtain ⟨node, hnode, hattached⟩ := isAlive_iff_exists.mp halive
  have hx := lt_size_of_node? hnode
  by_cases hid : g.isLowerable id = true
  · rcases discarded_or_accepted hid hlower with rfl | ⟨r, h, hrun, hcheck⟩
    · have discarded := extends'.discardSince wf.fresh extends'.size_le (Nat.le_refl _)
      rw [isAlive, discarded.old hx, hnode]
      exact hattached
    · have hafter : (tool id).after g memory = h := by rw [ToolM.after, hrun]
      rw [hafter] at wf' extends'
      have hidAlive : h.isAlive id = true := by
        obtain ⟨found, hfound, halive⟩ := isAlive_iff_exists.mp (isAlive_of_isLowerable hid)
        rw [isAlive, extends'.old (lt_size_of_node? hfound), hfound]
        exact halive
      obtain ⟨-, hfind⟩ := wf'.reinstates_of_run_error hid hidAlive hrun hcheck hlower
      rw [isAlive, hfind, extends'.old hx, hnode, Option.map_some, Option.any_some,
        Node.isAlive_redirect]
      exact hattached
  · obtain ⟨v', hrefused⟩ := run_lowerNode_of_not_isLowerable tool hid memory
    cases hlower.symm.trans hrefused
    exact halive

/-! ## Node after node -/

section Along

variable (acts : ∀ id h memory, Constructs Node.Built h ((tool id).after h memory))

include acts

/-- **Lowering node after node stops at a node that cannot be lowered**, and those before it were
lowered.  The induction is along the list. -/
theorem WellFormed.exists_stop (wf : g.WellFormed) {stats : LoweringStats}
    (hstop : (lowerAlong tool stats ids).run (g, memory) = .error (.violation v) (g', memory')) :
    ∃ done id rest, ids = done ++ id :: rest ∧ Leaves g done g' ∧
      ∃ rs h memory₁, (done.mapM (lowerNode tool)).run (g, memory) = .ok rs (h, memory₁) ∧
        (lowerNode tool id).run (h, memory₁) = .error (.violation v) (g', memory') := by
  induction ids generalizing g stats memory with
  | nil => cases hstop
  | cons id ids ih =>
      rw [lowerAlong] at hstop
      cases hnode : g.node? id with
      | none =>
          rw [run_bind_of_error (run_fetchKind_of_none hnode memory)] at hstop
          cases hstop
      | some node =>
          rw [run_bind_of_ok (run_fetchKind hnode memory)] at hstop
          rcases hlower : (lowerNode tool id).run (g, memory) with ⟨r, h, memory₁⟩ | ⟨e, h, memory₁⟩
          · -- the node was lowered, and the pass goes on if it finds what is listed
            have first := wf.leaves_of_run_ok (acts id g memory) hlower
            rw [run_bind_of_ok hlower] at hstop
            rcases run_mapM_fetchKind_cases r.nodes h memory₁ with ⟨kinds, hkinds, -⟩ | ⟨hmiss, -⟩
            · rw [run_bind_of_ok hkinds] at hstop
              obtain ⟨done, last, rest, rfl, second, rs, k, memory₂, hdone, hlast⟩ :=
                ih first.wellFormed hstop
              refine ⟨id :: done, last, rest, rfl, first.trans second, r :: rs, k, memory₂, ?_,
                hlast⟩
              rw [List.mapM_cons, run_bind_of_ok hlower, run_bind_of_ok hdone]
              rfl
            · rw [run_bind_of_error hmiss] at hstop
              cases hstop
          · rw [run_bind_of_error hlower] at hstop
            cases hstop
            have left := wf.leaves_of_run_error (acts id g memory) hlower
            exact ⟨[], id, ids, rfl, left, [], g, memory, rfl, hlower⟩

/-- Whatever nodes are lowered, the invariants are kept. -/
theorem WellFormed.after_lowerAlong (wf : g.WellFormed) (stats : LoweringStats)
    (ids : List NodeId) (memory : σ) : ((lowerAlong tool stats ids).after g memory).WellFormed := by
  have path : Path (Change Node.Built) g (loweringsAlong tool (fun _ _ _ => []) ids g memory)
      ((lowerAlong tool stats ids).after g memory) :=
    path_lowerAlong (fun id h memory b => (acts id h memory).runs.path b) wf.toBalanced stats ids
      memory
  exact path.changes.wellFormed (fun _ hnode => hnode) wf

/-- The pass stops at a node or not at all: verification passes. -/
theorem WellFormed.run_lowerAlong_of_stopped (wf : g.WellFormed) {config : LoweringConfig}
    {order : Graph → List NodeId}
    (hstop : (runPass config order tool).run (g, memory) = .error (.violation v) (g', memory')) :
    (lowerAlong tool { initialLive := g.liveCount } (order g)).run (g, memory) =
      .error (.violation v) (g', memory') := by
  have wf' := wf.after_lowerAlong acts { initialLive := g.liveCount } (order g) memory
  rw [ToolM.after] at wf'
  change (lowerAlong tool { initialLive := g.liveCount } (order g) >>= _).run (g, memory) = _
    at hstop
  rcases hlower : (lowerAlong tool { initialLive := g.liveCount } (order g)).run (g, memory) with
    ⟨stats, h, memory₁⟩ | ⟨e, h, memory₁⟩
  · rw [hlower] at wf'
    rw [run_bind_of_ok hlower] at hstop
    split at hstop
    · rw [ToolM.run_inTool_ask_bind, wf'.verify] at hstop
      cases hstop
    · cases hstop
  · rwa [run_bind_of_error hlower] at hstop

end Along

/-- **A stopped pass leaves a clean cut.**  In a graph that a run leads to, let the pass be run with
any configuration, and so in either order, and with a tool that adds nodes and edits no others.  If
it answers a violation, then it has lowered the first nodes of its order, and the violation is that
of the next node.

* The nodes before that one became replaced, and no others.
* It and the nodes behind it are still there to be lowered, with the kinds that they had.
* All other attached nodes are still attached, with the kinds and stamps that they had.
* No node that is new was in the order, and none is replaced.
* The graph is well formed and passes verification. -/
theorem Reachable.stopped_pass (reachable : g.Reachable)
    (acts : ∀ id h memory, Constructs Node.Built h ((tool id).after h memory))
    (config : LoweringConfig)
    (hstop : (runPass config config.traversal.order tool).run (g, memory) =
      .error (.violation v) (g', memory')) :
    ∃ done id rest, config.traversal.order g = done ++ id :: rest ∧
      (∃ rs h memory₁, (done.mapM (lowerNode tool)).run (g, memory) = .ok rs (h, memory₁) ∧
        (lowerNode tool id).run (h, memory₁) = .error (.violation v) (g', memory')) ∧
      (∀ x, g'.state? x = some .replaced ↔ g.state? x = some .replaced ∨ x ∈ done) ∧
      (∀ x ∈ id :: rest, ∃ node node', g.liveNode? x = some node ∧
        node.kind.isLowerable = true ∧ g'.liveNode? x = some node' ∧ node'.kind = node.kind) ∧
      (∀ x node, g.liveNode? x = some node → x ∉ done → ∃ node', g'.liveNode? x = some node' ∧
        node'.kind = node.kind ∧ node'.stamp = node.stamp) ∧
      (∀ x : NodeId, g.size ≤ x.index →
        x ∉ config.traversal.order g ∧ g'.state? x ≠ some .replaced) ∧
      g'.WellFormed ∧ g'.verify = .ok () := by
  have wf := reachable.wellFormed
  obtain ⟨done, id, rest, horder, leaves, stopped⟩ :=
    wf.exists_stop acts (wf.run_lowerAlong_of_stopped acts hstop)
  have schedule := config.traversal.schedules_order g
  rw [horder] at schedule
  refine ⟨done, id, rest, horder, stopped, fun x => leaves.state?_eq_replaced_iff, fun x hx => ?_,
    fun x node hlive hx => leaves.exists_liveNode? hlive hx, fun x hnew => ?_, leaves.wellFormed,
    leaves.wellFormed.verify⟩
  · -- no node is listed twice, and so this one was not lowered
    have hnot : x ∉ done := fun hdone => (List.nodup_append.mp schedule.nodup).2.2 x hdone x hx rfl
    obtain ⟨node, hnode, halive, hlowerable⟩ :=
      isLowerable_iff.mp (schedule.mem_iff.mp (List.mem_append_right done hx))
    have hlive := liveNode?_of_isAlive hnode halive
    obtain ⟨node', hlive', hkind, -⟩ := leaves.exists_liveNode? hlive hnot
    exact ⟨node, node', hlive, hlowerable, hlive', hkind⟩
  · have hunlisted : x ∉ done ++ id :: rest := fun hlisted =>
      Nat.not_lt.mpr hnew (lt_size_of_isLowerable (schedule.mem_iff.mp hlisted))
    refine ⟨horder ▸ hunlisted, fun hreplaced => ?_⟩
    rcases leaves.state?_eq_replaced_iff.mp hreplaced with hbefore | hdone
    · rw [state?, (g.node?_eq_none_iff x).mpr hnew] at hbefore
      cases hbefore
    · exact hunlisted (List.mem_append_left _ hdone)

/-- The tool of `storeOnly` has no value to offer.  In allocation order it lowers the write and
stops at the load, the value of which is returned. -/
theorem stopped_pass_storeOnly :
    storeThenLoad.Reachable ∧ ∃ v g',
      (runPass { traversal := .creation } Traversal.creation.order (storeOnly false)).run
        (storeThenLoad, ()) = .error (.violation v) (g', ()) ∧
      g'.state? ⟨5⟩ = some .replaced ∧ (∃ load, g'.liveNode? ⟨6⟩ = some load) ∧
      g'.verify = .ok () := by
  let config : LoweringConfig := { traversal := .creation }
  obtain ⟨v, g', ⟨⟩, hstop⟩ := ToolM.violates_iff.mp
    (show (runPass config config.traversal.order (storeOnly false)).violates storeThenLoad () = true
      by decide +kernel)
  obtain ⟨done, id, rest, horder, ⟨rs, h, memory₁, hdone, hlast⟩, hreplaced, hlater, -, -, -,
    hverify⟩ := Reachable.stopped_pass reachable_storeThenLoad
      (fun id h memory => (enlarges_storeOnly false id h memory).constructs) config hstop
  have hlist : config.traversal.order storeThenLoad = [⟨5⟩, ⟨6⟩] := by decide +kernel
  rw [hlist] at horder
  cases done with
  | nil =>
      -- the write is lowered, and so it is not where the pass stops
      cases horder
      cases hdone
      obtain ⟨_, hlower⟩ := exists_run_lowerNode_storeOnly
      cases hlast.symm.trans hlower
  | cons first done =>
      obtain ⟨rfl, htail⟩ := List.cons_eq_cons.mp horder
      obtain ⟨rfl, rfl⟩ : done = [] ∧ id = ⟨6⟩ := by
        cases done with
        | nil => exact ⟨rfl, (List.cons_eq_cons.mp htail).1.symm⟩
        | cons second done => cases done <;> cases (List.cons_eq_cons.mp htail).2
      obtain ⟨-, load, -, -, hload, -⟩ := hlater ⟨6⟩ List.mem_cons_self
      exact ⟨reachable_storeThenLoad, v, g', hstop, (hreplaced ⟨5⟩).mpr (.inr List.mem_cons_self),
        ⟨load, hload⟩, hverify⟩

end Graph

end SeaOfNodes
