import SeaOfNodes.Proofs.Lowering.Emission
import SeaOfNodes.Proofs.Node.Rename

/-!
# The plan of an expansion

What an access is expanded to, before anything is built.  A `Plan` holds the block of the access,
what control comes from, and, for a compare-and-swap, the operands of the address that is computed
first.  Given the id that the first new node will have, it determines the new nodes (`Plan.nodes`)
and the replacement (`Plan.replacement`).

What makes whole runs tractable is that plans follow renamings (**`planOf_rename`**).  An access
whose inputs were moved is expanded to the nodes whose inputs are moved in the same way; and the
ids of the new nodes are a matter of renaming, too.
-/

namespace SeaOfNodes

/-- An access that is to be lowered. -/
inductive AccessView where
  | read (view : ReadView)
  | write (view : WriteView)
  | swap (view : SwapView)

namespace AccessView

/-- The address, where it is a node already. -/
def address : AccessView → Option NodeId
  | read view => some view.address
  | write view => some view.address
  | swap _ => none

/-- The kind of the node that is viewed. -/
def kind : AccessView → NodeKind
  | read view => .read view.access
  | write view => view.kind
  | swap view => view.kind

/-- The control predecessor. -/
def control : AccessView → NodeId
  | read view => view.control
  | write view => view.control
  | swap view => view.control

/-- The last access of the same location.  A swap names none. -/
def lastLocationAccess : AccessView → Option NodeId
  | read view => view.lastLocationAccess
  | write view => view.lastLocationAccess
  | swap _ => none

/-- Rename what an access holds. -/
def rename (f : Renaming) : AccessView → AccessView
  | read view => read (view.rename f)
  | write view => write (view.rename f)
  | swap view => swap (view.rename f)

theorem address_rename (f : Renaming) (view : AccessView) :
    (view.rename f).address = view.address.map (f .address) := by
  cases view <;> rfl

end AccessView

/-- The attached access at `id`. -/
def Graph.access? (g : Graph) (id : NodeId) : Option AccessView :=
  match (g.liveNode? id).map Node.kind with
  | some (.read _) => (g.asRead id).map .read
  | some (.write ..) => (g.asWrite id).map .write
  | some (.compareAndSwap ..) => (g.asCompareAndSwap id).map .swap
  | _ => none

theorem Graph.access?_rename {g g' : Graph} {id : NodeId} {f : Renaming}
    (h : g'.liveNode? id = (g.liveNode? id).map (Node.rename f)) :
    g'.access? id = (g.access? id).map (AccessView.rename f) := by
  have hkind : (g'.liveNode? id).map Node.kind = (g.liveNode? id).map Node.kind := by
    rw [h, Option.map_map]
    rfl
  unfold access?
  rw [hkind, asRead_rename h, asWrite_rename h, asCompareAndSwap_rename h]
  split
  · cases g.asRead id <;> rfl
  · cases g.asWrite id <;> rfl
  · cases g.asCompareAndSwap id <;> rfl
  · rfl

/-- A view shows the kind of the node, its control predecessor and the last access that it names. -/
theorem Graph.of_access? {g : Graph} {id : NodeId} {view : AccessView} {node : Node}
    (hview : g.access? id = some view) (hnode : g.liveNode? id = some node) :
    view.kind = node.kind ∧ node.input 0 = some view.control ∧
      view.lastLocationAccess = node.inputOf .memory := by
  unfold access? at hview
  rw [hnode, Option.map_some] at hview
  cases hkind : node.kind with
  | read access =>
      rw [hkind] at hview
      obtain ⟨r, hr, rfl⟩ := Option.map_eq_some_iff.mp hview
      simp only [asRead, hnode, hkind, Option.bind_eq_bind, Option.bind_some,
        Option.bind_eq_some_iff] at hr
      obtain ⟨control, hcontrol, address, -, he⟩ := hr
      cases he
      exact ⟨rfl, hcontrol, rfl⟩
  | write access initialization =>
      rw [hkind] at hview
      obtain ⟨w, hw, rfl⟩ := Option.map_eq_some_iff.mp hview
      simp only [asWrite, hnode, hkind, Option.bind_eq_bind, Option.bind_some,
        Option.bind_eq_some_iff] at hw
      obtain ⟨control, hcontrol, address, -, value, -, he⟩ := hw
      cases he
      exact ⟨rfl, hcontrol, rfl⟩
  | compareAndSwap valueKind location =>
      rw [hkind] at hview
      obtain ⟨s, hs, rfl⟩ := Option.map_eq_some_iff.mp hview
      simp only [asCompareAndSwap, hnode, hkind, Option.bind_eq_bind, Option.bind_some,
        Option.bind_eq_some_iff] at hs
      obtain ⟨control, hcontrol, object, -, offset, -, expected, -, newValue, -, he⟩ := hs
      cases he
      have hnone : node.inputOf .memory = none := by
        rw [Node.inputOf, hkind]
        rfl
      exact ⟨rfl, hcontrol, hnone.symm⟩
  | _ =>
      rw [hkind] at hview
      cases hview

theorem Graph.kind_of_access? {g : Graph} {id : NodeId} {view : AccessView} {node : Node}
    (hview : g.access? id = some view) (hnode : g.liveNode? id = some node) :
    view.kind = node.kind :=
  (of_access? hview hnode).1

/-! ## Renamed blocks -/

/-- Rename the operands of a step, which fill the slots after control. -/
def Step.rename (f : Renaming) (step : Step) : Step :=
  { step with
    operands := step.operands.mapIdx fun i => SlotInfo.rename? f step.kind.layout[i + 1]? }

/-- Rename the operands of all steps of a block. -/
def Block.rename (f : Renaming) (block : Block) : Block where
  before := block.before.map (Step.rename f)
  access := block.access.rename f
  after := block.after.map (Step.rename f)

@[simp] theorem Block.steps_rename (f : Renaming) (block : Block) :
    (block.rename f).steps = block.steps.map (Step.rename f) := by
  unfold steps
  rw [List.map_append, List.map_cons]
  rfl

/-- The operands of a step are as many as its kind has slots after control, which is first. -/
def Step.Full (step : Step) : Prop :=
  ∃ infos, step.kind.layout = SlotInfo.control :: infos ∧ infos.length = step.operands.length

namespace Step

variable {step : Step}

theorem Full.slots_node (h : step.Full) (control : NodeId) :
    (step.node control).slots = some control :: step.operands := by
  obtain ⟨infos, hlayout, hlength⟩ := h
  unfold node Node.withInputs
  rw [hlayout, List.length_cons, List.length_cons, hlength, Nat.sub_self]
  exact List.append_nil _

/-- The node of a renamed step is the renamed node. -/
theorem Full.node_rename (h : step.Full) (f : Renaming) (control : NodeId) :
    (step.rename f).node (f .control control) = (step.node control).rename f := by
  have hfull : (step.rename f).Full := by
    obtain ⟨infos, hlayout, hlength⟩ := h
    exact ⟨infos, hlayout, hlength.trans List.length_mapIdx.symm⟩
  have hslots : (step.rename f).node (f .control control) =
      { step.node control with
        slots := some (f .control control) :: (step.rename f).operands } := by
    rw [← hfull.slots_node]
    rfl
  obtain ⟨infos, hlayout, hlength⟩ := id h
  have hinfo : ∀ i < step.operands.length,
      (step.node control).slotInfo (i + 1) = step.kind.layout[i + 1]? := by
    intro i hi
    have hlt : i + 1 < step.kind.layout.length := by
      rw [hlayout, List.length_cons, hlength]
      omega
    rw [List.getElem?_eq_getElem hlt]
    exact Node.slotInfo_of_layout (List.getElem?_eq_getElem hlt)
  rw [hslots, Node.rename, h.slots_node, List.mapIdx_cons, rename]
  have hcontrol : (step.node control).slotInfo 0 = some SlotInfo.control := by
    refine Node.slotInfo_of_layout ?_
    show step.kind.layout[0]? = _
    rw [hlayout]
    rfl
  rw [hcontrol]
  have htail : step.operands.mapIdx (fun i => SlotInfo.rename? f step.kind.layout[i + 1]?) =
      step.operands.mapIdx fun i => SlotInfo.rename? f ((step.node control).slotInfo (i + 1)) := by
    apply List.ext_getElem (by simp)
    intro i hi _
    rw [List.getElem_mapIdx, List.getElem_mapIdx, hinfo i (by simpa using hi)]
  rw [htail]
  rfl

@[simp] theorem rename_nullCheck (f : Renaming) (object : Option NodeId) :
    (nullCheck object).rename f = nullCheck (object.map (f .value)) := rfl

@[simp] theorem rename_fence (f : Renaming) (fence : Fence) :
    (Step.fence fence).rename f = .fence fence := rfl

@[simp] theorem rename_barrier (f : Renaming) (barrier : WriteBarrier) (address : NodeId)
    (value : Option NodeId) :
    (Step.barrier barrier address value).rename f =
      .barrier barrier (f .address address) (value.map (f .value)) := rfl

end Step

namespace LoweringConfig

variable (config : LoweringConfig) (f : Renaming)

theorem map_stepIf {α : Type} (h : Step → α) (condition : Bool) (step : Step) :
    (stepIf condition step).map h = if condition then [h step] else [] := by
  cases condition <;> rfl

theorem writeBlock_rename (w : WriteView) (kind : ValueKind) (object check : Option NodeId) :
    config.writeBlock (w.rename f) kind (object.map (f .value)) (check.map (f .guard)) =
      (config.writeBlock w kind object check).rename f := by
  have hguard : (check.map (f .guard)).or (w.guard.map (f .guard)) =
      (check.or w.guard).map (f .guard) := by
    cases check <;> rfl
  simp only [writeBlock, Block.rename, WriteView.rename, List.map_append, List.map_map, map_stepIf,
    Function.comp_def, Step.rename_nullCheck, Step.rename_fence, Step.rename_barrier, hguard]
  rfl

theorem readBlock_rename (r : ReadView) (kind : ValueKind) (object check : Option NodeId) :
    config.readBlock (r.rename f) kind (object.map (f .value)) (check.map (f .guard)) =
      (config.readBlock r kind object check).rename f := by
  have hguard : (check.map (f .guard)).or (r.guard.map (f .guard)) =
      (check.or r.guard).map (f .guard) := by
    cases check <;> rfl
  simp only [readBlock, Block.rename, ReadView.rename, map_stepIf, Step.rename_nullCheck,
    Step.rename_fence, hguard]
  rfl

theorem swapBlock_rename (s : SwapView) (address : NodeId) :
    config.swapBlock (s.rename f) (f .address address) =
      (config.swapBlock s address).rename f := by
  simp only [swapBlock, Block.rename, SwapView.rename, map_stepIf, Step.rename_fence]
  rfl

end LoweringConfig

/-! ## Plans -/

/-- The expansion of an access, before it is built. -/
structure Plan where
  /-- What control comes from. -/
  control : NodeId
  /-- Base and offset of an address that is computed first. -/
  address : Option (NodeId × NodeId)
  /-- The fixed nodes. -/
  block : Block
  /-- Whether the access computes a value. -/
  valued : Bool
  /-- Whether the first node is a null check, which takes over as guard. -/
  guarded : Bool

instance : Inhabited Plan := ⟨⟨default, none, ⟨[], ⟨default, default, []⟩, []⟩, false, false⟩⟩

namespace Plan

/-- The node of the address. -/
def lead (plan : Plan) : List Node :=
  plan.address.toList.map fun (base, offset) =>
    .withInputs .offsetAddress .address [some base, some offset]

/-- How many nodes are new. -/
def size (plan : Plan) : Nat := plan.lead.length + plan.block.steps.length

/-- The first node of the block, where `base` is the first new id. -/
def first (plan : Plan) (base : NodeId) : NodeId := base.advance plan.lead.length

/-- The new nodes in the order of their ids. -/
def nodes (plan : Plan) (base : NodeId) : List Node :=
  plan.lead ++ Step.chain plan.control (plan.first base) plan.block.steps

/-- The node of the access. -/
def access (plan : Plan) (base : NodeId) : NodeId :=
  (plan.first base).advance plan.block.before.length

/-- The last node of the block. -/
def tail (plan : Plan) (base : NodeId) : NodeId :=
  (plan.first base).advance (plan.block.before.length + plan.block.after.length)

/-- What takes the place of the access. -/
def replacement (plan : Plan) (base : NodeId) : Replacement where
  control := plan.tail base
  value := if plan.valued then some (plan.access base) else none
  memory := plan.access base
  guard := if plan.guarded then some base else none
  nodes := base.span plan.size

/-- Which of the new nodes takes over the usages of a role. -/
def offset (plan : Plan) : InputType → Option Nat
  | .control => some (plan.lead.length + (plan.block.before.length + plan.block.after.length))
  | .value => if plan.valued then some (plan.lead.length + plan.block.before.length) else none
  | .memory => some (plan.lead.length + plan.block.before.length)
  | .guard => if plan.guarded then some 0 else none
  | .state | .address => none

/-- Rename what a plan refers to. -/
def rename (f : Renaming) (plan : Plan) : Plan :=
  { plan with
    control := f .control plan.control
    address := plan.address.map fun (base, offset) => (f .value base, f .value offset)
    block := plan.block.rename f }

@[simp] theorem length_nodes (plan : Plan) (base : NodeId) :
    (plan.nodes base).length = plan.size := by
  unfold nodes
  rw [List.length_append, Step.length_chain, size]

/-- What takes over is a new node. -/
theorem target_replacement (plan : Plan) (base : NodeId) (type : InputType) :
    (plan.replacement base).target type = (plan.offset type).map base.advance := by
  cases type <;> simp only [replacement, Replacement.target, offset, tail, access, first,
    ArenaId.advance_advance, Option.map_some, Option.map_none]
  · cases plan.valued <;> rfl
  · cases plan.guarded <;> rfl

theorem size_pos (plan : Plan) : 0 < plan.size := by
  unfold size Block.steps
  rw [List.length_append, List.length_cons]
  omega

theorem offset_lt {plan : Plan} {type : InputType} {j : Nat} (h : plan.offset type = some j) :
    j < plan.size := by
  have hsize : plan.size =
      plan.lead.length + (plan.block.before.length + (plan.block.after.length + 1)) := by
    unfold size Block.steps
    rw [List.length_append, List.length_cons]
  cases type <;> simp only [offset, Option.ite_none_right_eq_some, Option.some.injEq,
    reduceCtorEq] at h <;> omega

theorem lead_rename (f : Renaming) (plan : Plan) :
    (plan.rename f).lead = plan.lead.map (Node.rename f) := by
  unfold lead rename
  cases plan.address <;> rfl

@[simp] theorem size_rename (f : Renaming) (plan : Plan) : (plan.rename f).size = plan.size := by
  unfold size
  rw [lead_rename, List.length_map, rename, Block.steps_rename, List.length_map]

@[simp] theorem first_rename (f : Renaming) (plan : Plan) (base : NodeId) :
    (plan.rename f).first base = plan.first base := by
  unfold first
  rw [lead_rename, List.length_map]

@[simp] theorem offset_rename (f : Renaming) (plan : Plan) :
    (plan.rename f).offset = plan.offset := by
  have hbefore : (plan.rename f).block.before.length = plan.block.before.length :=
    List.length_map _
  have hafter : (plan.rename f).block.after.length = plan.block.after.length := List.length_map _
  have hlead : (plan.rename f).lead.length = plan.lead.length := by
    rw [lead_rename, List.length_map]
  funext type
  cases type <;> simp only [offset, hbefore, hafter, hlead] <;> rfl

/-- A renaming does not matter to what takes the place of the access. -/
@[simp] theorem replacement_rename (f : Renaming) (plan : Plan) (base : NodeId) :
    (plan.rename f).replacement base = plan.replacement base := by
  have hbefore : (plan.rename f).block.before.length = plan.block.before.length :=
    List.length_map _
  have hafter : (plan.rename f).block.after.length = plan.block.after.length := List.length_map _
  simp only [replacement, tail, access, first_rename, size_rename, hbefore, hafter]
  rfl

/-- Every step fills the slots of its kind. -/
def Full (plan : Plan) : Prop := ∀ step ∈ plan.block.steps, step.Full

/-- The nodes of a renamed plan are the renamed nodes, if the renaming follows the new ids. -/
theorem Full.nodes_rename {plan : Plan} (h : plan.Full) {f : Renaming} {base base' : NodeId}
    (hf : ∀ j < plan.size, f .control (base.advance j) = base'.advance j) :
    (plan.rename f).nodes base' = (plan.nodes base).map (Node.rename f) := by
  unfold nodes
  rw [List.map_append, lead_rename, first_rename]
  refine congrArg (plan.lead.map (Node.rename f) ++ ·) (List.ext_getElem? fun j => ?_)
  rw [List.getElem?_map, Step.getElem?_chain, Step.getElem?_chain, rename, Block.steps_rename,
    List.getElem?_map]
  cases hstep : plan.block.steps[j]? with
  | none => rfl
  | some step =>
      have hj : j < plan.block.steps.length := (List.getElem?_eq_some_iff.mp hstep).1
      have hcontrol : (if j = 0 then f .control plan.control
            else (plan.first base').advance (j - 1)) =
          f .control (if j = 0 then plan.control else (plan.first base).advance (j - 1)) := by
        split
        · rfl
        · rw [first, first, ArenaId.advance_advance, ArenaId.advance_advance,
            hf _ (by rw [size]; omega)]
      simp only [Option.map_some]
      rw [hcontrol, (h step (List.mem_of_getElem? hstep)).node_rename]

end Plan

namespace LoweringConfig

variable (config : LoweringConfig)

/-- The plan of an access, where `object` is the base of its address and `base` the first new id. -/
def plan (locations : LocationUniverse) (object : Option NodeId) (base : NodeId) :
    AccessView → Plan
  | .read r => {
      control := r.control
      address := none
      block := config.readBlock r (locations.accessKind r.access.location) object
        (if r.access.nullCheck then some base else none)
      valued := true
      guarded := r.access.nullCheck }
  | .write w => {
      control := w.control
      address := none
      block := config.writeBlock w (locations.accessKind w.access.location) object
        (if w.access.nullCheck then some base else none)
      valued := false
      guarded := w.access.nullCheck }
  | .swap s => {
      control := s.control
      address := some (s.object, s.offset)
      block := config.swapBlock s base
      valued := true
      guarded := false }

/-- The plan of the attached access at `id`. -/
def planOf (g : Graph) (base id : NodeId) : Option Plan :=
  (g.access? id).map fun view =>
    config.plan g.locations (view.address.bind fun address => g.input address 0) base view

theorem full_plan (locations : LocationUniverse) (object : Option NodeId) (base : NodeId)
    (view : AccessView) : (config.plan locations object base view).Full := by
  have hstepIf : ∀ {condition : Bool} {step : Step}, step.Full →
      ∀ s ∈ stepIf condition step, s.Full := by
    intro condition step h s hs
    cases condition with
    | false => cases hs
    | true => exact List.mem_singleton.mp hs ▸ h
  have hbarrier : ∀ {barrier : Option WriteBarrier} {address : NodeId} {value : Option NodeId},
      ∀ s ∈ barrier.toList.map (Step.barrier · address value), s.Full := by
    intro barrier address value s hs
    obtain ⟨b, -, rfl⟩ := List.mem_map.mp hs
    exact ⟨_, rfl, rfl⟩
  have hnullCheck : (Step.nullCheck object).Full := ⟨_, rfl, rfl⟩
  have hfence : ∀ fence, (Step.fence fence).Full := fun _ => ⟨_, rfl, rfl⟩
  cases view with
  | read r =>
      refine List.forall_mem_append.mpr ⟨hstepIf hnullCheck, List.forall_mem_cons.mpr ⟨?_, ?_⟩⟩
      · exact ⟨_, rfl, rfl⟩
      · exact hstepIf (hfence _)
  | write w =>
      refine List.forall_mem_append.mpr ⟨?_, List.forall_mem_cons.mpr ⟨?_, ?_⟩⟩
      · exact List.forall_mem_append.mpr
          ⟨List.forall_mem_append.mpr ⟨hstepIf hnullCheck, hbarrier⟩, hstepIf (hfence _)⟩
      · exact ⟨_, rfl, rfl⟩
      · exact List.forall_mem_append.mpr ⟨hbarrier, hstepIf (hfence _)⟩
  | swap s =>
      refine List.forall_mem_append.mpr ⟨hstepIf (hfence _), List.forall_mem_cons.mpr ⟨?_, ?_⟩⟩
      · exact ⟨_, rfl, rfl⟩
      · exact hstepIf (hfence _)

theorem full_of_planOf {config : LoweringConfig} {g : Graph} {base id : NodeId} {plan : Plan}
    (hplan : config.planOf g base id = some plan) : plan.Full := by
  obtain ⟨view, -, rfl⟩ := Option.map_eq_some_iff.mp hplan
  exact config.full_plan _ _ _ view

/-- The plan of a renamed access is the renamed plan, if the renaming follows the first new id. -/
theorem plan_rename {f : Renaming} {base base' : NodeId} (hguard : f .guard base = base')
    (haddress : f .address base = base') (locations : LocationUniverse) (object : Option NodeId)
    (view : AccessView) :
    config.plan locations (object.map (f .value)) base' (view.rename f) =
      (config.plan locations object base view).rename f := by
  have hcheck : ∀ condition : Bool, (if condition then some base' else none) =
      (if condition then some base else none).map (f .guard) := by
    rintro (_ | _)
    · rfl
    · exact congrArg some hguard.symm
  cases view with
  | read r =>
      have hblock := config.readBlock_rename f r (locations.accessKind r.access.location) object
        (if r.access.nullCheck then some base else none)
      rw [← hcheck] at hblock
      simp only [plan, AccessView.rename, Plan.rename, ← hblock]
      rfl
  | write w =>
      have hblock := config.writeBlock_rename f w (locations.accessKind w.access.location) object
        (if w.access.nullCheck then some base else none)
      rw [← hcheck] at hblock
      simp only [plan, AccessView.rename, Plan.rename, ← hblock]
      rfl
  | swap s =>
      have hblock := config.swapBlock_rename f s base
      rw [haddress] at hblock
      simp only [plan, AccessView.rename, Plan.rename, ← hblock]
      rfl

/-- **The plan of an access follows a renaming of what the access holds.** -/
theorem planOf_rename {g g' : Graph} {id base base' : NodeId} {f : Renaming}
    (hlocations : g'.locations = g.locations)
    (hnode : g'.liveNode? id = (g.liveNode? id).map (Node.rename f))
    (hobject : ∀ view address, g.access? id = some view → view.address = some address →
      g'.input (f .address address) 0 = (g.input address 0).map (f .value))
    (hguard : f .guard base = base') (haddress : f .address base = base') :
    config.planOf g' base' id = (config.planOf g base id).map (Plan.rename f) := by
  unfold planOf
  rw [Graph.access?_rename hnode, hlocations]
  cases hview : g.access? id with
  | none => rfl
  | some view =>
      simp only [Option.map_some]
      rw [← config.plan_rename hguard haddress, AccessView.address_rename]
      cases hview' : view.address with
      | none => rfl
      | some address =>
          have hinput := hobject view address hview hview'
          simp only [Option.map_some, Option.bind_some, hinput]

/-- The block of a plan goes on from the control predecessor of the access. -/
theorem control_of_planOf {config : LoweringConfig} {g : Graph} {base id : NodeId} {plan : Plan}
    {node : Node} (hplan : config.planOf g base id = some plan)
    (hnode : g.liveNode? id = some node) : node.input 0 = some plan.control := by
  obtain ⟨view, hview, rfl⟩ := Option.map_eq_some_iff.mp hplan
  rw [(Graph.of_access? hview hnode).2.1]
  cases view <;> rfl

end LoweringConfig

end SeaOfNodes
