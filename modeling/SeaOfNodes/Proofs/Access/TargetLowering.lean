import SeaOfNodes.Proofs.Access.TypedRuns
import SeaOfNodes.Proofs.Lowering.Totality

/-!
# The lowering for the target keeps accesses typed

A lowering stands in a `Graph.TypedRun` if the tool acts by such a run, and if the value that takes
the place of the node is like it.  The tool of the target meets both in every typed graph, so that
its lowerings need no condition: **`TypedRun.lowerNode_target`**, and for the whole pass
`TypedRun.after_run`.

What the tool builds are no accesses (`LoweringConfig.grows_tool`).  The value of a read is that of
its raw load, which is given the stamp of the read; the value of a swap is that of the atomic swap,
which tells whether it succeeded.

### What is load-bearing

That a swap has the stamp of such a result is no part of the rule for accesses, and the plan of a
swap does not look at it.  It is known because swaps are requested: `Node.Orderly.answers`.
-/

namespace SeaOfNodes

namespace Graph

variable {g h : Graph} {node : Node} {id base : NodeId} {plan : Plan}

/-! ## The value of an expansion -/

theorem stamp_of_access? {r : ReadView} (hview : g.access? id = some (.read r))
    (hnode : g.liveNode? id = some node) : r.stamp = node.stamp := by
  obtain ⟨access, hkind⟩ : ∃ access, node.kind = .read access :=
    ⟨_, (kind_of_access? hview hnode).symm⟩
  unfold access? at hview
  rw [hnode, Option.map_some, hkind] at hview
  obtain ⟨r', hr, he⟩ := Option.map_eq_some_iff.mp hview
  cases he
  simp only [asRead, hnode, hkind, Option.bind_eq_bind, Option.bind_some,
    Option.bind_eq_some_iff] at hr
  obtain ⟨control, -, address, -, he⟩ := hr
  cases he
  rfl

/-- The raw access that computes the value of a node has the stamp of the node. -/
theorem stamp_access_of_planOf {config : LoweringConfig}
    (hplan : config.planOf g base id = some plan) (hnode : g.liveNode? id = some node)
    (orderly : node.Orderly) (hvalued : plan.valued = true) :
    plan.block.access.stamp = node.stamp := by
  obtain ⟨view, hview, rfl⟩ := Option.map_eq_some_iff.mp hplan
  cases view with
  | read r => exact stamp_of_access? hview hnode
  | write w => cases hvalued
  | swap s => exact (orderly.answers _ _ (kind_of_access? hview hnode).symm).symm

/-- The node of the access among the new ones. -/
theorem stamp?_access (g : Graph) (plan : Plan) :
    (g.insertAll (plan.nodes g.nextId)).stamp? (plan.access g.nextId) =
      some plan.block.access.stamp := by
  obtain ⟨control, hnode⟩ := plan.exists_access g.nextId
  rw [stamp?, Plan.access, Plan.first, ArenaId.advance_advance, node?_insertAll_advance, hnode]
  rfl

/-! ## Runs -/

/-- What creates nodes that are no accesses, or requests accesses, is such a run. -/
theorem Grows.typedRun (grown : Grows Node.Plain g h) (typed : g.Typed) : TypedRun g h := by
  induction grown with
  | refl => exact .refl g
  | create _ creation ih => exact ih.create typed creation

namespace TypedRun

/-- **A lowering for the target may always follow.** -/
theorem lowerNode_target (run : TypedRun g h) (typed : g.Typed) (config : LoweringConfig)
    (id : NodeId) : TypedRun g ((lowerNode config.tool id).after h ()) := by
  have htyped := run.typed typed
  refine .lower run (fun _ => (config.grows_tool (fun _ plain => plain) id h ()).typedRun htyped) ?_
  intro hid r k memory hrun hcheck
  obtain ⟨node, hnode, halive, hlowerable⟩ := isLowerable_iff.mp hid
  obtain ⟨plan, hplan, hbuilds⟩ :=
    config.builds_expand htyped.wellFormed hnode halive hlowerable
  have wf := LoweringConfig.Builds.wellFormed config hbuilds htyped.wellFormed
  have htool : (config.tool id).run (h, ()) = _ := Edit.run_inTool hbuilds ()
  cases htool.symm.trans hrun
  have hold : (h.insertAll (plan.nodes h.nextId)).node? id = some node :=
    (node?_insertAll_of_lt _ (lt_size_of_node? hnode)).trans hnode
  refine keepsTypes_substitute wf (isAlive_iff_exists.mpr ⟨node, hold, halive⟩) hcheck ?_
  intro v hv
  obtain ⟨hvalued, he⟩ := Option.ite_none_right_eq_some.mp hv
  cases he
  have hstamp := stamp_access_of_planOf hplan (liveNode?_of_isAlive hnode halive)
    (htyped.orderly id node hnode) hvalued
  rw [stamp?_access, hstamp, stamp?, hold]
  exact .same _

/-- So may the pass, for whatever configuration. -/
theorem after_run (run : TypedRun g h) (typed : g.Typed) (config : LoweringConfig) :
    TypedRun g (config.run.after h) := by
  unfold LoweringConfig.run
  rw [ToolM.after_toEdit]
  exact run.pass (fun id k _ reached => reached.lowerNode_target typed config id) config _ ()

end TypedRun

end Graph

end SeaOfNodes
