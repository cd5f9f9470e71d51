import SeaOfNodes.Proofs.Graph.Ageing
import SeaOfNodes.Proofs.Lowering.Outcome
import SeaOfNodes.Proofs.Lowering.Tally

/-!
# The history of a run

A run calls `lowerNode`, by itself, in a pass, or in the course of a tool that does.  Its log lists
the nodes for which such a call has succeeded, in the order in which the calls came to their ends:
`Graph.Runs`.  Every run has a log (`Reaches.exists_log`).

**`Runs.path`** resolves a run into changes, as `Reaches.changes` does, and keeps account of the
nodes that are replaced: they are those of the log.  With `Change.ages` and `Path.aged` this is the
life of the nodes, **`Runs.lifecycle`**.

### What is load-bearing

The node that is lowered is given up in the middle of a call, and the call may still be one of a
tool whose own call has not come to its end.  It is only after the node was given up that nothing
can fail any more: then the nodes of the replacement are marked, and the call succeeds
(`path_substitute`).  So the calls that succeed are those which replace their node.
-/

namespace SeaOfNodes

/-! ## Where computations lead -/

section After

variable {σ α β : Type}

theorem ToolM.after_bind (m : ToolM σ α) (k : α → ToolM σ β) (g : Graph) (memory : σ) :
    (m >>= k).after g memory =
      match m.run (g, memory) with
      | .ok a (g', memory') => (k a).after g' memory'
      | .error _ (g', _) => g' := by
  simp only [after, EStateM.run, bind, EStateM.bind]
  rcases m (g, memory) with ⟨a, g', memory'⟩ | ⟨e, g', memory'⟩ <;> rfl

theorem run_fetchKind_of_none {g : Graph} {id : NodeId} (h : g.node? id = none) (memory : σ) :
    (fetchKind id).run (g, memory) = .error .outOfRange (g, memory) := by
  have hmiss : (Edit.fetch fun g => (g.node? id).map Node.kind).run g = .error .outOfRange g := by
    show Edit.fetch _ g = _
    rw [Edit.fetch, h]
    rfl
  show Edit.inTool _ (g, memory) = _
  rw [Edit.inTool, hmiss]

/-- Kinds are fetched, or one of the nodes does not exist; nothing changes. -/
theorem run_mapM_fetchKind_cases (ids : List NodeId) (g : Graph) (memory : σ) :
    (∃ kinds, (ids.mapM fetchKind).run (g, memory) = .ok kinds (g, memory) ∧
      ∀ id ∈ ids, (g.node? id).isSome = true) ∨
    (ids.mapM fetchKind).run (g, memory) = .error .outOfRange (g, memory) ∧
      ¬ ∀ id ∈ ids, (g.node? id).isSome = true := by
  induction ids with
  | nil => exact .inl ⟨[], rfl, nofun⟩
  | cons id ids ih =>
      rw [List.mapM_cons, List.forall_mem_cons]
      cases hnode : g.node? id with
      | none =>
          have hfetch := run_fetchKind_of_none hnode memory
          exact .inr ⟨run_bind_of_error hfetch, fun h => absurd h.1 nofun⟩
      | some node =>
          rw [run_bind_of_ok (run_fetchKind hnode memory)]
          rcases ih with ⟨kinds, hrest, hknown⟩ | ⟨hrest, hunknown⟩
          · refine .inl ⟨node.kind :: kinds, ?_, rfl, hknown⟩
            rw [run_bind_of_ok hrest]
            rfl
          · exact .inr ⟨run_bind_of_error hrest, fun h => hunknown h.2⟩

end After

/-! ## Logs -/

section Logs

variable {σ : Type}

/-- The nodes for which the calls of `lowerNode` succeed in the course of one such call, where
`calls` tells them for the tool. -/
def lowerings (tool : LoweringTool σ) (calls : NodeId → Graph → σ → List NodeId) (id : NodeId)
    (g : Graph) (memory : σ) : List NodeId :=
  if g.isLowerable id then
    calls id g memory ++
      match (lowerNode tool id).run (g, memory) with
      | .ok .. => [id]
      | .error .. => []
  else []

/-- The same for the nodes of a list that are lowered one after the other, up to the first failure.
The pass counts the nodes of each replacement, and so one that does not exist is a failure. -/
def loweringsAlong (tool : LoweringTool σ) (calls : NodeId → Graph → σ → List NodeId) :
    List NodeId → Graph → σ → List NodeId
  | [], _, _ => []
  | id :: ids, g, memory =>
    lowerings tool calls id g memory ++
      match (lowerNode tool id).run (g, memory) with
      | .ok r (g', memory') =>
        if ∀ x ∈ r.nodes, (g'.node? x).isSome = true then
          loweringsAlong tool calls ids g' memory'
        else []
      | .error .. => []

end Logs

namespace Graph

variable {admits : Node → Prop} {g g' h : Graph} {log : List NodeId} {id : NodeId} {node : Node}

/-- `Runs admits g log g'`: some run leads from `g` to `g'`, and `log` lists the nodes for which
`lowerNode` has succeeded in the course of it. -/
inductive Runs (admits : Node → Prop) : Graph → List NodeId → Graph → Prop where
  /-- The empty run. -/
  | refl (g : Graph) : Runs admits g [] g
  /-- An edit follows. -/
  | edit {g h : Graph} {log : List NodeId} {α : Type} {m : Edit α} (run : Runs admits g log h)
      (operation : Operation admits m) : Runs admits g log (m.after h)
  /-- A node is lowered by a tool that acts by runs, whatever it answers. -/
  | lower {g h : Graph} {log : List NodeId} {σ : Type} {tool : LoweringTool σ}
      {calls : NodeId → Graph → σ → List NodeId} (run : Runs admits g log h)
      (acts : ∀ id h memory, Runs admits h (calls id h memory) ((tool id).after h memory))
      (id : NodeId) (memory : σ) :
      Runs admits g (log ++ lowerings tool calls id h memory) ((lowerNode tool id).after h memory)
  /-- The pass is run with such a tool. -/
  | pass {g h : Graph} {log : List NodeId} {σ : Type} {tool : LoweringTool σ}
      {calls : NodeId → Graph → σ → List NodeId} (run : Runs admits g log h)
      (acts : ∀ id h memory, Runs admits h (calls id h memory) ((tool id).after h memory))
      (config : LoweringConfig) (order : Graph → List NodeId) (memory : σ) :
      Runs admits g (log ++ loweringsAlong tool calls (order h) h memory)
        ((runPass config order tool).after h memory)

/-- **Every run has a log.** -/
theorem Reaches.exists_log (reached : Reaches admits g g') : ∃ log, Runs admits g log g' := by
  induction reached with
  | refl g => exact ⟨[], .refl g⟩
  | edit _ operation ih =>
      obtain ⟨log, run⟩ := ih
      exact ⟨log, run.edit operation⟩
  | lower _ _ id memory ih acts =>
      obtain ⟨log, run⟩ := ih
      choose calls hcalls using acts
      exact ⟨_, run.lower hcalls id memory⟩
  | pass _ _ config order memory ih acts =>
      obtain ⟨log, run⟩ := ih
      choose calls hcalls using acts
      exact ⟨_, run.pass hcalls config order memory⟩

theorem Runs.reaches (run : Runs admits g log g') : Reaches admits g g' := by
  induction run with
  | refl g => exact .refl g
  | edit _ operation ih => exact ih.edit operation
  | lower _ _ id memory ih acts => exact ih.lower acts id memory
  | pass _ _ config order memory ih acts => exact ih.pass acts config order memory

/-- What is built upon a graph is a run in which nothing is lowered. -/
theorem Constructs.runs (constructed : Constructs admits g h) : Runs admits g [] h := by
  induction constructed with
  | refl => exact .refl g
  | edit _ construction ih => exact .edit ih construction.operation

/-! ## Runs as paths -/

theorem Path.changes (path : Path (Change admits) g log g') : Changes admits g g' := by
  induction path with
  | refl => exact .refl
  | tail _ last ih => exact ih.tail ⟨_, last⟩

theorem Path.balanced (path : Path (Change admits) g log g') (b : g.Balanced) : g'.Balanced :=
  path.changes.balanced b

/-- Moving usages replaces nothing. -/
theorem revisions_moveUsages (b : g.Balanced) (id : NodeId) (r : Replacement)
    (types : List InputType) : Revisions admits g ((moveUsages id r types).after g) := by
  have composes : Composes fun g g' => g.Balanced → Revisions admits g g' :=
    ⟨fun _ _ => .refl, fun hgh hhk b => (hgh b).trans (hhk ((hgh b).balanced b))⟩
  refine within_moveUsages composes ?_ id r types g b
  exact fun old type new g b => (change_replaceAtUsagesOfType b old type new).revisions

/-- **A substitution replaces its node, if it succeeds**, and nothing else. -/
theorem path_substitute (b : g.Balanced) (id : NodeId) (r : Replacement) :
    match (substitute id r).run g with
    | .ok _ g' => Path (Change admits) g [id] g'
    | .error _ g' => Path (Change admits) g [] g' := by
  have moved : Revisions admits g ((moveUsages id r (g.usedRoles id)).after g) :=
    revisions_moveUsages b id r _
  unfold substitute
  rw [Edit.run_get_bind]
  rcases hmove : (moveUsages id r (g.usedRoles id)).run g with ⟨_, g₁⟩ | ⟨e, g₁⟩
  · rw [Edit.after_of_run_ok hmove] at moved
    rw [run_bind_of_ok hmove]
    have hretire := g₁.run_retire id
    rcases hcheck : g₁.checkRetire id with v | _
    · rw [hcheck] at hretire
      rw [run_bind_of_error hretire]
      exact moved.path
    · rw [hcheck] at hretire
      rw [run_bind_of_ok hretire]
      obtain ⟨halive, hunused⟩ := checkRetire_eq_ok_iff.mp hcheck
      obtain ⟨node, hnode, hattached⟩ := isAlive_iff_exists.mp halive
      have retired : Path (Change admits) g₁ [id] (g₁.bury id .replaced) :=
        .single (Change.retire hnode hattached hunused)
      exact moved.path.trans (retired.trans (revisions_markLowered _ r.nodes).path)
  · rw [Edit.after, hmove] at moved
    rw [run_bind_of_error hmove]
    exact moved.path

section Lowering

variable {σ : Type} {tool : LoweringTool σ} {calls : NodeId → Graph → σ → List NodeId}

/-- **The lowering of a node as a path**, if what the tool does is one. -/
theorem path_lowerNode (b : g.Balanced) {memory : σ}
    (acts : Path (Change admits) g (calls id g memory) ((tool id).after g memory)) :
    Path (Change admits) g (lowerings tool calls id g memory)
      ((lowerNode tool id).after g memory) := by
  unfold lowerings ToolM.after at *
  split
  · next hid =>
    rw [run_lowerNode_eq tool (requireLowerable_of_isLowerable hid)]
    rcases hrun : (tool id).run (g, memory) with ⟨r, h, memory'⟩ | ⟨v | _, h, memory'⟩ <;>
      rw [hrun] at acts <;> dsimp only at acts ⊢
    · rcases h.checkReplacement id (g.checkpoint? id) r with v | _ <;> dsimp only
      · exact acts.trans (revisions_discardSince h g.size).path
      · -- the replacement is accepted, and the tool will not be asked again
        have substituted := @path_substitute admits h (acts.balanced b) id r
        rcases hsubstitute : (substitute id r).run h with ⟨_, g'⟩ | ⟨e, g'⟩ <;>
          rw [hsubstitute] at substituted <;> exact acts.trans substituted
    · exact acts.trans (revisions_discardSince h g.size).path
    · rwa [List.append_nil]
  · next hid =>
    obtain ⟨v, hrefused⟩ := run_lowerNode_of_not_isLowerable tool hid memory
    rw [hrefused]
    exact .refl

/-- What is left when the first node of a list was lowered, and the others after it. -/
theorem after_lowerAlong_cons (tool : LoweringTool σ) (stats : LoweringStats) (id : NodeId)
    (ids : List NodeId) (g : Graph) (memory : σ) :
    ∃ stats', (lowerAlong tool stats (id :: ids)).after g memory =
      match (lowerNode tool id).run (g, memory) with
      | .ok r (g', memory') =>
        if ∀ x ∈ r.nodes, (g'.node? x).isSome = true then
          (lowerAlong tool stats' ids).after g' memory'
        else g'
      | .error _ (g', _) => g' := by
  rw [lowerAlong, ToolM.after_bind]
  cases hnode : g.node? id with
  | none =>
      have hid : ¬ g.isLowerable id = true := by simp [isLowerable, hnode]
      obtain ⟨v, hrefused⟩ := run_lowerNode_of_not_isLowerable tool hid memory
      exact ⟨stats, by rw [run_fetchKind_of_none hnode, hrefused]⟩
  | some node =>
      rw [run_fetchKind hnode]
      dsimp only
      rw [ToolM.after_bind]
      rcases hlower : (lowerNode tool id).run (g, memory) with ⟨r, g', memory'⟩ | ⟨e, g', memory'⟩
      · dsimp only
        rw [ToolM.after_bind]
        rcases run_mapM_fetchKind_cases r.nodes g' memory' with
          ⟨kinds, hkinds, hknown⟩ | ⟨hkinds, hunknown⟩
        · exact ⟨_, by rw [hkinds, if_pos hknown]⟩
        · exact ⟨stats, by rw [hkinds, if_neg hunknown]⟩
      · exact ⟨stats, rfl⟩

/-- **Lowering node after node as a path.** -/
theorem path_lowerAlong
    (acts : ∀ id h memory, h.Balanced →
      Path (Change admits) h (calls id h memory) ((tool id).after h memory))
    (b : g.Balanced) (stats : LoweringStats) (ids : List NodeId) (memory : σ) :
    Path (Change admits) g (loweringsAlong tool calls ids g memory)
      ((lowerAlong tool stats ids).after g memory) := by
  induction ids generalizing g stats memory with
  | nil => exact .refl
  | cons id ids ih =>
      have lowered := path_lowerNode b (acts id g memory b)
      obtain ⟨stats', hafter⟩ := after_lowerAlong_cons tool stats id ids g memory
      rw [hafter, loweringsAlong]
      rw [ToolM.after] at lowered
      rcases hlower : (lowerNode tool id).run (g, memory) with
        ⟨r, g', memory'⟩ | ⟨e, g', memory'⟩ <;>
        rw [hlower] at lowered <;> dsimp only at lowered ⊢
      · split
        · exact lowered.trans (ih (lowered.balanced b) stats' memory')
        · rwa [List.append_nil]
      · rwa [List.append_nil]

/-- Verification changes nothing, and so the pass leaves what the lowering of its nodes leaves. -/
theorem after_runPass (config : LoweringConfig) (order : Graph → List NodeId)
    (tool : LoweringTool σ) (g : Graph) (memory : σ) :
    (runPass config order tool).after g memory =
      (lowerAlong tool { initialLive := g.liveCount } (order g)).after g memory := by
  show (lowerAlong tool { initialLive := g.liveCount } (order g) >>= _).after g memory = _
  rw [ToolM.after_bind, ToolM.after]
  rcases (lowerAlong tool { initialLive := g.liveCount } (order g)).run (g, memory) with
    ⟨stats, g', memory'⟩ | ⟨e, g', memory'⟩
  · dsimp only
    split
    · rw [ToolM.after, ToolM.run_inTool_ask_bind]
      cases g'.verify <;> rfl
    · rfl
  · rfl

end Lowering

/-- **A run is a path of changes, and its log lists the nodes that are replaced.** -/
theorem Runs.path (run : Runs admits g log g') (b : g.Balanced) :
    Path (Change admits) g log g' := by
  induction run with
  | refl => exact .refl
  | edit _ operation ih =>
      have before := ih b
      have whole := before.trans (operation.mayChange (before.balanced b)).revisions.path
      rwa [List.append_nil] at whole
  | lower _ _ id memory ih acts =>
      have before := ih b
      have balanced := before.balanced b
      exact before.trans (path_lowerNode balanced (acts id _ memory balanced))
  | pass _ _ config order memory ih acts =>
      have before := ih b
      rw [after_runPass]
      exact before.trans (path_lowerAlong acts (before.balanced b) _ _ memory)

/-! ## The life of nodes -/

/-- Along a path that begins with a balanced graph nodes move on only. -/
theorem Path.aged_of_balanced (path : Path (Change admits) g log g') (b : g.Balanced) :
    Aged g log g' :=
  (path.strengthen (fun change b => change.balanced b) (fun b change => change.ages b) b).1.aged

/-- **The life of nodes.**  Let a run lead from a new graph to `g`, and from there to `g'`, where
`lowerNode` succeeds for the nodes `log`.

* The run is a path of changes, and each of them lets nodes move on only: states make the moves of
  `NodeState.Moves`, a node leaves the graph when no node uses it, and becomes replaced when its
  turn in the log has come.
* From one end to the other no node is lost, kinds and stamps do not change, states have moved on,
  and the nodes that became replaced are those of the log, each of them once.
* A node that has left the graph stays as it is: it holds nothing, and is in no use. -/
theorem Runs.lifecycle {earlier : List NodeId} (before : Runs admits new earlier g)
    (run : Runs admits g log g') :
    Path (fun h label h' => Change admits h label h' ∧ Ages h label h') g log g' ∧
    Aged g log g' ∧
    ∀ id node, g.node? id = some node → node.state.isFinal = true →
      ∃ node', g'.node? id = some node' ∧ node'.state = node.state ∧ node'.slots = [] ∧
        g'.usages id = [] := by
  have b := (before.path balanced_new).balanced balanced_new
  have path := run.path b
  have moments : Path (fun h label h' => Change admits h label h' ∧ Ages h label h') g log g' ∧
      g'.Balanced :=
    path.strengthen (fun change b => change.balanced b)
      (fun b change => ⟨change, change.ages b⟩) b
  have aged : Aged g log g' := (moments.1.mono fun moment => moment.2).aged
  refine ⟨moments.1, aged, fun id node hnode final => ?_⟩
  obtain ⟨node', hnode', -, -, moves⟩ := aged.kept hnode
  have hstate := NodeState.eq_of_isFinal final moves
  exact ⟨node', hnode', hstate, moments.2.gone hnode' (hstate ▸ final)⟩

/-- The tool that stores the operand of `storeThenLoad` acts by an edit. -/
theorem runs_storeOnly (id : NodeId) (g : Graph) (memory : Unit) :
    Runs Node.Built g [] ((storeOnly false id).after g memory) :=
  (enlarges_storeOnly false id g memory).constructs.runs

/-- The write of `storeThenLoad` is replaced by the tool, and is in no use afterwards; the load is
still a load. -/
theorem lifecycle_storeOnly :
    ∃ g', Runs Node.Built storeThenLoad [⟨5⟩] g' ∧ g'.state? ⟨5⟩ = some .replaced ∧
      g'.usages ⟨5⟩ = [] ∧
      ∃ load load', storeThenLoad.node? ⟨6⟩ = some load ∧ g'.node? ⟨6⟩ = some load' ∧
        load'.kind = load.kind := by
  have hid : storeThenLoad.isLowerable ⟨5⟩ = true := by decide +kernel
  obtain ⟨g', hlower⟩ := exists_run_lowerNode_storeOnly
  have hlog : lowerings (storeOnly false) (fun _ _ _ => []) ⟨5⟩ storeThenLoad () = [⟨5⟩] := by
    rw [lowerings, if_pos hid, hlower]
    rfl
  have hafter : (lowerNode (storeOnly false) ⟨5⟩).after storeThenLoad () = g' := by
    rw [ToolM.after, hlower]
  have lowered : ∀ {g log}, Runs Node.Built g log storeThenLoad →
      Runs Node.Built g (log ++ [⟨5⟩]) g' := by
    intro g log run
    have lowered := run.lower runs_storeOnly ⟨5⟩ ()
    rwa [hlog, hafter] at lowered
  obtain ⟨earlier, before⟩ := Reaches.exists_log reachable_storeThenLoad
  have run : Runs Node.Built storeThenLoad [⟨5⟩] g' := lowered (.refl storeThenLoad)
  obtain ⟨-, aged, -⟩ := Runs.lifecycle before run
  have hstate := ((aged.replaced ⟨5⟩).mp (List.mem_singleton_self _)).2
  obtain ⟨node, hnode, hreplaced⟩ := exists_of_state? hstate
  obtain ⟨-, -, gone⟩ := Runs.lifecycle (lowered before) (.refl g')
  obtain ⟨_, -, -, -, hunused⟩ := gone ⟨5⟩ node hnode (by rw [hreplaced]; rfl)
  obtain ⟨load, hload⟩ : ∃ load, storeThenLoad.node? ⟨6⟩ = some load := ⟨_, rfl⟩
  obtain ⟨load', hload', hkind, -⟩ := aged.kept hload
  exact ⟨g', run, hstate, hunused, load, load', hload, hload', hkind⟩

end Graph

end SeaOfNodes
