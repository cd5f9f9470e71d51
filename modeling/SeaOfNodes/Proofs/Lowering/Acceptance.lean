import SeaOfNodes.Proofs.Location.Checkpoint
import SeaOfNodes.Proofs.Lowering.BlockKinds
import SeaOfNodes.Proofs.Lowering.Expand
import SeaOfNodes.Proofs.Memory.Embedding

/-!
# Planned replacements are accepted

A replacement is accepted when every usage of the node has a target that serves, and what the node
killed is still killed (`checkReplacement_eq_ok_iff`).  The replacement of a plan has a target for
every role in which an access of its kind may be used, a new node that allows the role
(`LoweringConfig.exists_target`), and the node of the access kills what the access killed
(`LoweringConfig.exists_kills`).
-/

namespace SeaOfNodes

namespace Graph

variable {g : Graph} {id : NodeId} {r : Replacement}

theorem checkTarget_eq_ok_iff {site : UseSite} :
    g.checkTarget id r site = .ok () ↔
      ∃ target, r.target site.info.inputType = some target ∧
        g.Serves target site.info.inputType := by
  unfold checkTarget
  cases r.target site.info.inputType with
  | none => simp [throw, throwThe, MonadExceptOf.throw]
  | some target =>
      simp only [bind_eq_ok_iff, requireAlive_eq_ok_iff, guarded_eq_ok_iff, Option.some.injEq,
        exists_eq_left', Serves]
      constructor
      · rintro ⟨node, ⟨hnode, halive⟩, hallows, -⟩
        exact ⟨node, hnode, halive, hallows⟩
      · rintro ⟨node, hnode, halive, hallows⟩
        exact ⟨node, ⟨hnode, halive⟩, hallows, rfl⟩

theorem checkReplacement_eq_ok_iff {killed : Option Checkpoint} :
    g.checkReplacement id killed r = .ok () ↔
      (∀ site ∈ g.usageSites id, ∃ target, r.target site.info.inputType = some target ∧
        g.Serves target site.info.inputType) ∧ killed.all (g.killsAll r.nodes) = true := by
  unfold checkReplacement
  rw [bind_eq_ok_iff, exists_unit_iff, forM_eq_ok_iff, guarded_eq_ok_iff]
  simp only [checkTarget_eq_ok_iff]
  exact and_congr_right fun _ => and_iff_left rfl

/-- Whether the node at `id` kills `location` for certain. -/
def covers (g : Graph) (id : NodeId) (location : LocationId) : Bool :=
  (g.checkpoint? id).any (·.covers g.locations location)

theorem covers_of_kills {node : Node} {location : LocationId} (hnode : g.node? id = some node)
    (hkills : node.kind.kills = some location) : g.covers id location = true := by
  rw [covers, checkpoint?_of_node? hnode, hkills]
  simp [Checkpoint.covers, Checkpoint.locations]

/-- The nodes of a list kill a location together if and only if one of them does. -/
theorem killsAll_single (hany : g.locations.get? LocationUniverse.anyId = some .any)
    (nodes : List NodeId) (location : LocationId) :
    g.killsAll nodes (.single location) = nodes.any (g.covers · location) := by
  have hjoint : g.killsAll nodes (.single location) =
      (g.jointCheckpoint nodes).any (·.covers g.locations location) := by
    simp [killsAll, Checkpoint.locations]
  rw [hjoint, jointCheckpoint, Checkpoint.any_covers_joinAll hany, List.any_filterMap]
  refine congrArg (List.any nodes) (funext fun x => ?_)
  rw [covers]
  cases g.checkpoint? x <;> rfl

end Graph

/-! ## The roles of accesses -/

namespace AccessView

/-- Whether the access checks its base for null. -/
def nullCheck : AccessView → Bool
  | read view => view.access.nullCheck
  | write view => view.access.nullCheck
  | swap _ => false

/-- Whether the access computes a value. -/
def valued : AccessView → Bool
  | read _ | swap _ => true
  | write _ => false

/-- Whether the access may be used in the role. -/
def mayServe (view : AccessView) : InputType → Bool
  | .control | .memory => true
  | .value => view.valued
  | .guard => view.nullCheck
  | .state | .address => false

/-- **The roles of an access.**  What checks its base for null may serve as a guard, and what
computes a value as a value. -/
theorem allows_kind (view : AccessView) (type : InputType) :
    view.kind.allows type = view.mayServe type := by
  cases view with
  | read r =>
      show (NodeKind.read r.access).allows type = _
      unfold NodeKind.allows NodeKind.allowedUsages mayServe nullCheck
      cases hcheck : r.access.nullCheck <;> cases type <;> simp [hcheck, valued]
  | write w =>
      show (NodeKind.write w.access w.initialization).allows type = _
      unfold NodeKind.allows NodeKind.allowedUsages mayServe nullCheck
      cases hcheck : w.access.nullCheck <;> cases type <;> simp [hcheck, valued]
  | swap s => cases type <;> rfl

end AccessView

/-! ## The nodes of a plan -/

namespace Plan

variable {plan : Plan} {base : NodeId}

/-- The nodes of the block follow the node of the address. -/
theorem getElem?_nodes (plan : Plan) (base : NodeId) (j : Nat) :
    (plan.nodes base)[plan.lead.length + j]? =
      (plan.block.steps[j]?).map fun step =>
        step.node (if j = 0 then plan.control else (plan.first base).advance (j - 1)) := by
  rw [nodes, List.getElem?_append_right (Nat.le_add_right _ _), Nat.add_sub_cancel_left,
    Step.getElem?_chain]

/-- Every step has its node. -/
theorem exists_node_of_step {j : Nat} {step : Step} (h : plan.block.steps[j]? = some step)
    (base : NodeId) :
    ∃ node, (plan.nodes base)[plan.lead.length + j]? = some node ∧ node.kind = step.kind :=
  ⟨_, by rw [getElem?_nodes, h]; rfl, rfl⟩

/-- The node of the access follows the steps before it. -/
theorem exists_access (plan : Plan) (base : NodeId) :
    ∃ control, (plan.nodes base)[plan.lead.length + plan.block.before.length]? =
      some (plan.block.access.node control) := by
  have hstep : plan.block.steps[plan.block.before.length]? = some plan.block.access := by
    unfold Block.steps
    rw [List.getElem?_append_right (Nat.le_refl _), Nat.sub_self]
    rfl
  exact ⟨_, by rw [getElem?_nodes, hstep]; rfl⟩

/-- The node of the access is among the new ones. -/
theorem exists_access_node (plan : Plan) (base : NodeId) :
    ∃ j node, plan.access base = base.advance j ∧ (plan.nodes base)[j]? = some node ∧
      node.kind = plan.block.access.kind := by
  obtain ⟨control, hnode⟩ := plan.exists_access base
  exact ⟨_, _, ArenaId.advance_advance _ _ _, hnode, rfl⟩

/-- The last node is among the new ones, and stems from a step. -/
theorem exists_tail_node (plan : Plan) (base : NodeId) :
    ∃ j node, plan.tail base = base.advance j ∧ (plan.nodes base)[j]? = some node ∧
      ∃ step ∈ plan.block.steps, node.kind = step.kind := by
  have hlt : plan.block.before.length + plan.block.after.length < plan.block.steps.length := by
    unfold Block.steps
    rw [List.length_append, List.length_cons]
    omega
  obtain ⟨node, hnode, hkind⟩ := exists_node_of_step (List.getElem?_eq_getElem hlt) base
  exact ⟨_, node, ArenaId.advance_advance _ _ _, hnode, _, List.getElem_mem hlt, hkind⟩

end Plan

namespace LoweringConfig

variable (config : LoweringConfig) (locations : LocationUniverse) (object : Option NodeId)
  (base : NodeId) {view : AccessView}

/-- Control can go on from every fixed node of an expansion. -/
theorem blockKinds_allow_control (kind : NodeKind) :
    ∀ other ∈ config.blockKinds locations kind, other.allows .control = true :=
  config.forall_blockKinds locations (P := fun other => other.allows .control = true) rfl
    (fun _ => rfl) (fun _ => rfl) (fun _ => rfl) (fun _ => rfl) (fun _ _ _ => rfl) kind

/-- The null check of an access is its first new node. -/
theorem exists_check_node {plan : Plan} (hlead : plan.lead = [])
    (hstep : plan.block.steps[0]? = some (.nullCheck object)) :
    ∃ node, (plan.nodes base)[0]? = some node ∧ node.kind.allows .guard = true := by
  obtain ⟨node, hnode, hkind⟩ := Plan.exists_node_of_step hstep base
  rw [hlead] at hnode
  refine ⟨node, hnode, ?_⟩
  rw [hkind]
  rfl

/-- **In every role in which an access may be used, a new node takes over that allows the role.** -/
theorem exists_target {type : InputType} (h : view.kind.allows type = true) :
    ∃ j node, ((config.plan locations object base view).replacement base).target type =
        some (base.advance j) ∧
      ((config.plan locations object base view).nodes base)[j]? = some node ∧
      node.kind.allows type = true := by
  obtain ⟨j, access, haccess, hnode, hkind⟩ :=
    (config.plan locations object base view).exists_access_node base
  cases type with
  | control =>
      obtain ⟨j, node, htail, hnode, step, hstep, hkind⟩ :=
        (config.plan locations object base view).exists_tail_node base
      refine ⟨j, node, congrArg some htail, hnode, ?_⟩
      rw [hkind]
      refine config.blockKinds_allow_control locations view.kind _ ?_
      rw [← config.kinds_steps locations object base view]
      exact List.mem_map_of_mem hstep
  | memory =>
      refine ⟨j, access, congrArg some haccess, hnode, ?_⟩
      rw [hkind]
      cases view <;> rfl
  | value =>
      cases view with
      | read r => exact ⟨j, access, congrArg some haccess, hnode, by rw [hkind]; rfl⟩
      | swap s => exact ⟨j, access, congrArg some haccess, hnode, by rw [hkind]; rfl⟩
      | write w => rw [AccessView.allows_kind] at h; cases h
  | guard =>
      rw [AccessView.allows_kind] at h
      have hfirst : (config.plan locations object base view).lead = [] ∧
          (config.plan locations object base view).block.steps[0]? = some (.nullCheck object) ∧
          (config.plan locations object base view).guarded = true := by
        cases view with
        | read r =>
            have hcheck : r.access.nullCheck = true := h
            simp [plan, Plan.lead, readBlock, Block.steps, hcheck, stepIf]
        | write w =>
            have hcheck : w.access.nullCheck = true := h
            simp [plan, Plan.lead, writeBlock, Block.steps, hcheck, stepIf]
        | swap s => cases h
      obtain ⟨node, hnode, hallows⟩ := exists_check_node object base hfirst.1 hfirst.2.1
      exact ⟨0, node, if_pos hfirst.2.2, hnode, hallows⟩
  | state => rw [AccessView.allows_kind] at h; cases h
  | address => rw [AccessView.allows_kind] at h; cases h

/-- **The new nodes kill what the access kills.** -/
theorem exists_kills {location : LocationId} (h : view.kind.kills = some location) :
    ∃ (j : Nat) (node : Node),
      ((config.plan locations object base view).nodes base)[j]? = some node ∧
      node.kind.kills = some location := by
  obtain ⟨j, access, -, hnode, hkind⟩ :=
    (config.plan locations object base view).exists_access_node base
  refine ⟨j, access, hnode, ?_⟩
  rw [hkind]
  cases view with
  | read r => cases h
  | write w => exact h
  | swap s => exact h

end LoweringConfig

end SeaOfNodes
