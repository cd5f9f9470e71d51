import Mathlib.Data.List.Forall2
import SeaOfNodes.Proofs.Lowering.BlockKinds
import SeaOfNodes.Proofs.Lowering.Growth

/-!
# Expansions are built as planned

Every attached access of a well-formed graph has a plan, and its expansion is built without a
failure: **`LoweringConfig.builds_expand`**.  The reason is in the roles.  What fills a slot of the
access serves in the role of that slot; the plan puts it into slots of the same role, and beyond
that refers to its own nodes only, each of which serves where it is put.  This holds whatever the
inputs are: the access may hold itself, or another access that is still to be lowered.

In any graph, well formed or not, an expansion does no more than create nodes, and none of them is
an access (`LoweringConfig.within_expand`).  So what is known of tools that only add nodes is known
of the configured one.
-/

namespace SeaOfNodes

namespace Graph

variable {g : Graph} {id : NodeId} {node : Node}

/-! ## What an access holds -/

/-- What an access holds serves in the roles of its slots. -/
def Feeds (g : Graph) : AccessView → Prop
  | .read r =>
    g.Serves r.control .control ∧ g.Serves r.address .address ∧ g.Fits .guard r.guard ∧
      g.Fits .lastLocationAccess r.lastLocationAccess
  | .write w =>
    g.Serves w.control .control ∧ g.Serves w.address .address ∧ g.Serves w.value .value ∧
      g.Fits .guard w.guard ∧ g.Fits .stateAfter w.stateAfter ∧
      g.Fits .lastLocationAccess w.lastLocationAccess
  | .swap s =>
    g.Serves s.control .control ∧ g.Serves s.object .value ∧ g.Serves s.offset .value ∧
      g.Serves s.expected .value ∧ g.Serves s.newValue .value ∧ g.Fits .stateAfter s.stateAfter

theorem liveNode?_eq_some_iff :
    g.liveNode? id = some node ↔ g.node? id = some node ∧ node.isAlive = true :=
  Option.filter_eq_some_iff

theorem liveNode?_of_isAlive (hnode : g.node? id = some node) (halive : node.isAlive = true) :
    g.liveNode? id = some node :=
  liveNode?_eq_some_iff.mpr ⟨hnode, halive⟩

/-- **Every attached lowerable node is an access that can be viewed.** -/
theorem WellFormed.exists_access (wf : g.WellFormed) (h : g.node? id = some node)
    (halive : node.isAlive = true) (hlowerable : node.kind.isLowerable = true) :
    ∃ view, g.access? id = some view ∧ g.Feeds view := by
  have hlive := liveNode?_of_isAlive h halive
  cases hkind : node.kind with
  | read access =>
      obtain ⟨control, hcontrol, hservesControl⟩ := wf.serves_of_layout h halive hkind 0 rfl rfl
      obtain ⟨address, haddress, hservesAddress⟩ := wf.serves_of_layout h halive hkind 1 rfl rfl
      have hguard : node.inputOf .guard = node.input 2 := by rw [Node.inputOf, hkind]; rfl
      have hmemory : node.inputOf .memory = node.input 3 := by rw [Node.inputOf, hkind]; rfl
      refine ⟨.read ⟨id, control, address, access, node.input 2, node.input 3, node.stamp⟩, ?_,
        hservesControl, hservesAddress, ?_, ?_⟩
      · simp [access?, asRead, hlive, hkind, hcontrol, haddress, hguard, hmemory]
      · exact wf.fits_of_layout h halive hkind rfl
      · exact wf.fits_of_layout h halive hkind rfl
  | write access initialization =>
      obtain ⟨control, hcontrol, hservesControl⟩ := wf.serves_of_layout h halive hkind 0 rfl rfl
      obtain ⟨address, haddress, hservesAddress⟩ := wf.serves_of_layout h halive hkind 1 rfl rfl
      obtain ⟨value, hvalue, hservesValue⟩ := wf.serves_of_layout h halive hkind 2 rfl rfl
      have hguard : node.inputOf .guard = node.input 3 := by rw [Node.inputOf, hkind]; rfl
      have hstate : node.inputOf .state = node.input 4 := by rw [Node.inputOf, hkind]; rfl
      have hmemory : node.inputOf .memory = node.input 5 := by rw [Node.inputOf, hkind]; rfl
      refine ⟨.write ⟨id, control, address, value, access, initialization, node.input 3,
        node.input 4, node.input 5⟩, ?_, hservesControl, hservesAddress, hservesValue, ?_, ?_, ?_⟩
      · simp [access?, asWrite, hlive, hkind, hcontrol, haddress, hvalue, hguard, hstate, hmemory]
      · exact wf.fits_of_layout h halive hkind rfl
      · exact wf.fits_of_layout h halive hkind rfl
      · exact wf.fits_of_layout h halive hkind rfl
  | compareAndSwap valueKind location =>
      -- a swap has no address yet: object and offset are values of its own
      obtain ⟨control, hcontrol, hservesControl⟩ := wf.serves_of_layout h halive hkind 0 rfl rfl
      obtain ⟨object, hobject, hservesObject⟩ := wf.serves_of_layout h halive hkind 1 rfl rfl
      obtain ⟨offset, hoffset, hservesOffset⟩ := wf.serves_of_layout h halive hkind 2 rfl rfl
      obtain ⟨expected, hexpected, hservesExpected⟩ := wf.serves_of_layout h halive hkind 3 rfl rfl
      obtain ⟨newValue, hnewValue, hservesNewValue⟩ := wf.serves_of_layout h halive hkind 4 rfl rfl
      have hstate : node.inputOf .state = node.input 5 := by rw [Node.inputOf, hkind]; rfl
      refine ⟨.swap ⟨id, control, object, offset, expected, newValue, valueKind, location,
        node.input 5, node.stamp⟩, ?_, hservesControl, hservesObject, hservesOffset,
        hservesExpected, hservesNewValue, ?_⟩
      · simp [access?, asCompareAndSwap, hlive, hkind, hcontrol, hobject, hoffset, hexpected,
          hnewValue, hstate]
      · exact wf.fits_of_layout h halive hkind rfl
  | _ =>
      rw [hkind] at hlowerable
      cases hlowerable

/-! ## Steps that fit -/

/-- Inputs that fit the layout one by one make a node whose slots fit. -/
theorem slotsFit_withInputs {kind : NodeKind} {inputs : List (Option NodeId)}
    (h : List.Forall₂ g.Fits kind.layout inputs) (stamp : Stamp) :
    g.SlotsFit (.withInputs kind stamp inputs) :=
  (slotsFit_withInputs_iff h.length_eq.symm stamp).mpr h

/-- A step is ready when its operands fit the slots after control, and it may be followed. -/
structure Ready (g : Graph) (step : Step) : Prop where
  /-- The first slot is for control, and the operands fit the others. -/
  operands : ∃ infos, step.kind.layout = .control :: infos ∧ List.Forall₂ g.Fits infos step.operands
  /-- Control can go on from the node. -/
  allows : step.kind.allows .control = true

theorem Fits.insertAll {info : SlotInfo} {input : Option NodeId} (h : g.Fits info input)
    (nodes : List Node) : (g.insertAll nodes).Fits info input :=
  h.mono fun _ _ _ hserves => hserves.insertAll nodes

theorem Ready.insertAll {step : Step} (h : g.Ready step) (nodes : List Node) :
    (g.insertAll nodes).Ready step := by
  obtain ⟨infos, hlayout, hfits⟩ := h.operands
  exact ⟨⟨infos, hlayout, hfits.imp fun _ _ hfit => hfit.insertAll nodes⟩, h.allows⟩

theorem Ready.slotsFit {step : Step} (h : g.Ready step) {control : NodeId}
    (hcontrol : g.Serves control .control) : g.SlotsFit (step.node control) := by
  obtain ⟨infos, hlayout, hfits⟩ := h.operands
  refine slotsFit_withInputs ?_ step.stamp
  rw [hlayout]
  exact .cons hcontrol hfits

/-- What was inserted serves in the roles that its kind allows. -/
theorem serves_insert {type : InputType} (h : node.kind.allows type = true) :
    (g.insert node).Serves g.nextId type :=
  ⟨{ node with bci := g.nextBci, state := .attached }, by rw [node?_insert, if_pos rfl], rfl, h⟩

/-- Steps that are ready are emitted. -/
theorem emits_of_ready {control : NodeId} {steps : List Step}
    (hcontrol : g.Serves control .control) (h : ∀ step ∈ steps, g.Ready step) :
    g.Emits control steps := by
  induction steps generalizing g control with
  | nil => trivial
  | cons step steps ih =>
      have hstep := h step List.mem_cons_self
      refine ⟨hstep.slotsFit hcontrol, ih (serves_insert hstep.allows) ?_⟩
      intro other hother
      exact (h other (List.mem_cons_of_mem step hother)).insertAll [step.node control]

/-! ## Blocks that fit -/

/-- Of a slot only its role matters, and whether it may be empty. -/
theorem Fits.congr {info info' : SlotInfo} {input : Option NodeId} (h : g.Fits info input)
    (htype : info'.inputType = info.inputType) (hoptional : info'.optional = info.optional) :
    g.Fits info' input := by
  cases input with
  | none => exact hoptional.trans h
  | some d =>
      show g.Serves d info'.inputType
      rw [htype]
      exact h

theorem ready_nullCheck {object : NodeId} (h : g.Serves object .value) :
    g.Ready (.nullCheck (some object)) :=
  ⟨⟨_, rfl, .cons h .nil⟩, rfl⟩

theorem ready_fence (fence : Fence) : g.Ready (.fence fence) := ⟨⟨[], rfl, .nil⟩, rfl⟩

theorem ready_barrier {address : NodeId} {value : Option NodeId} (barrier : WriteBarrier)
    (haddress : g.Serves address .address) (hvalue : g.Fits (.mayBeEmpty "value" .value) value) :
    g.Ready (.barrier barrier address value) :=
  ⟨⟨_, rfl, .cons haddress (.cons hvalue .nil)⟩, rfl⟩

theorem forall_mem_stepIf {p : Step → Prop} {condition : Bool} {step : Step}
    (h : condition = true → p step) : ∀ s ∈ LoweringConfig.stepIf condition step, p s := by
  intro s hs
  cases condition with
  | false => cases hs
  | true => exact List.mem_singleton.mp hs ▸ h rfl

/-- The graph that a null check leaves, if there is one. -/
def afterCheck (g : Graph) (control : NodeId) (condition : Bool) (object : Option NodeId) : Graph :=
  g.insertAll (Step.chain control g.nextId (LoweringConfig.stepIf condition (.nullCheck object)))

variable {control : NodeId} {condition : Bool} {object : Option NodeId}

/-- The guard of an access behind its null check is the null check, or what it was. -/
theorem fits_check {guard : Option NodeId} (h : g.Fits .guard guard) :
    (g.afterCheck control condition object).Fits .guard
      ((if condition then some g.nextId else none).or guard) := by
  cases condition with
  | false => exact h
  | true => exact serves_insert rfl

/-- A block begins with its null check; the rest is ready once that exists. -/
theorem emits_check {rest : List Step} (hcontrol : g.Serves control .control)
    (hobject : condition = true → g.Ready (.nullCheck object))
    (hrest : ∀ step ∈ rest, (g.afterCheck control condition object).Ready step) :
    g.Emits control (LoweringConfig.stepIf condition (.nullCheck object) ++ rest) := by
  rw [emits_append]
  cases condition with
  | false => exact ⟨trivial, emits_of_ready hcontrol hrest⟩
  | true =>
      exact ⟨⟨(hobject rfl).slotsFit hcontrol, trivial⟩, emits_of_ready (serves_insert rfl) hrest⟩

end Graph

open SeaOfNodes.Graph

namespace LoweringConfig

variable {g : Graph} (config : LoweringConfig)

theorem emits_readBlock (wf : g.WellFormed) {r : ReadView} (h : g.Feeds (.read r))
    (kind : ValueKind) :
    g.Emits r.control
      (config.readBlock r kind (g.input r.address 0)
        (if r.access.nullCheck then some g.nextId else none)).steps := by
  obtain ⟨hcontrol, haddress, hguard, hmemory⟩ := h
  obtain ⟨base, hbase, hservesBase⟩ := wf.exists_base haddress
  rw [hbase]
  refine emits_check hcontrol (fun _ => ready_nullCheck hservesBase) ?_
  refine List.forall_mem_cons.mpr ⟨⟨⟨_, rfl, ?_⟩, rfl⟩, forall_mem_stepIf fun _ => ready_fence _⟩
  refine .cons (haddress.insertAll _) (.cons (fits_check hguard) (.cons ?_ .nil))
  exact (hmemory.congr rfl rfl).insertAll _

theorem emits_writeBlock (wf : g.WellFormed) {w : WriteView} (h : g.Feeds (.write w))
    (kind : ValueKind) :
    g.Emits w.control
      (config.writeBlock w kind (g.input w.address 0)
        (if w.access.nullCheck then some g.nextId else none)).steps := by
  obtain ⟨hcontrol, haddress, hvalue, hguard, hstate, hmemory⟩ := h
  obtain ⟨base, hbase, hservesBase⟩ := wf.exists_base haddress
  have hbarriers : ∀ (barrier : Option WriteBarrier) (value : Option NodeId),
      g.Fits (.mayBeEmpty "value" .value) value →
      ∀ step ∈ barrier.toList.map (Step.barrier · w.address value), g.Ready step := by
    intro barrier value hfits step hstep
    obtain ⟨b, -, rfl⟩ := List.mem_map.mp hstep
    exact ready_barrier b haddress hfits
  rw [hbase, Block.steps, writeBlock, List.append_assoc, List.append_assoc]
  refine emits_check hcontrol (fun _ => ready_nullCheck hservesBase) ?_
  -- the barrier before, the fence before, the store, the barrier after, the fence after
  refine List.forall_mem_append.mpr ⟨fun step hstep => ?_, List.forall_mem_append.mpr
    ⟨forall_mem_stepIf fun _ => ready_fence _, List.forall_mem_cons.mpr ⟨⟨⟨_, rfl, ?_⟩, rfl⟩,
      List.forall_mem_append.mpr ⟨fun step hstep => ?_, forall_mem_stepIf fun _ => ready_fence _⟩⟩⟩⟩
  · exact (hbarriers _ none rfl step hstep).insertAll _
  · refine .cons (haddress.insertAll _) (.cons (hvalue.insertAll _) (.cons (fits_check hguard) ?_))
    exact .cons ((hmemory.congr rfl rfl).insertAll _) (.cons (hstate.insertAll _) .nil)
  · exact (hbarriers _ (some w.value) hvalue step hstep).insertAll _

theorem emits_swapBlock {s : SwapView} (h : g.Feeds (.swap s)) {address : NodeId}
    (haddress : g.Serves address .address) :
    g.Emits s.control (config.swapBlock s address).steps := by
  obtain ⟨hcontrol, -, -, hexpected, hnewValue, hstate⟩ := h
  refine emits_of_ready hcontrol (List.forall_mem_append.mpr
    ⟨forall_mem_stepIf fun _ => ready_fence _, List.forall_mem_cons.mpr ⟨⟨⟨_, rfl, ?_⟩, rfl⟩,
      forall_mem_stepIf fun _ => ready_fence _⟩⟩)
  exact .cons haddress (.cons hexpected (.cons hnewValue (.cons hstate .nil)))

/-! ## Expansions -/

/-- A plan without an address puts its block at the first new id. -/
theorem nodes_of_address_eq_none {plan : Plan} (h : plan.address = none) (base : NodeId) :
    plan.nodes base = Step.chain plan.control base plan.block.steps ∧
      plan.replacement base = {
        control := base.advance (plan.block.before.length + plan.block.after.length)
        value := if plan.valued then some (base.advance plan.block.before.length) else none
        memory := base.advance plan.block.before.length
        guard := if plan.guarded then some base else none
        nodes := base.span plan.block.steps.length } := by
  have hlead : plan.lead = [] := by rw [Plan.lead, h]; rfl
  simp [Plan.nodes, Plan.replacement, Plan.tail, Plan.access, Plan.first, Plan.size, hlead]

/-- An edit builds a plan: it succeeds, inserts the planned nodes and answers the planned
replacement. -/
def Builds (g : Graph) (m : Edit Replacement) (plan : Plan) : Prop :=
  m.run g = .ok (plan.replacement g.nextId) (g.insertAll (plan.nodes g.nextId))

theorem builds_expandRead (wf : g.WellFormed) {id : NodeId} {r : ReadView}
    (hview : g.asRead id = some r) (h : g.Feeds (.read r)) :
    Builds g (config.expandRead id)
      (config.plan g.locations (g.input r.address 0) g.nextId (.read r)) := by
  have hnone : (config.plan g.locations (g.input r.address 0) g.nextId (.read r)).address = none :=
    rfl
  obtain ⟨hnodes, hreplacement⟩ := nodes_of_address_eq_none hnone g.nextId
  rw [Builds, hnodes, hreplacement, expandRead, Edit.run_ask_bind, requireView, hview]
  dsimp only
  rw [Edit.run_get_bind, run_bind_of_ok (run_emitBlock (config.emits_readBlock wf h _))]
  rfl

theorem builds_expandWrite (wf : g.WellFormed) {id : NodeId} {w : WriteView}
    (hview : g.asWrite id = some w) (h : g.Feeds (.write w)) :
    Builds g (config.expandWrite id)
      (config.plan g.locations (g.input w.address 0) g.nextId (.write w)) := by
  have hnone : (config.plan g.locations (g.input w.address 0) g.nextId (.write w)).address = none :=
    rfl
  obtain ⟨hnodes, hreplacement⟩ := nodes_of_address_eq_none hnone g.nextId
  rw [Builds, hnodes, hreplacement, expandWrite, Edit.run_ask_bind, requireView, hview]
  dsimp only
  rw [Edit.run_get_bind, run_bind_of_ok (run_emitBlock (config.emits_writeBlock wf h _))]
  rfl

theorem builds_expandSwap {id : NodeId} {s : SwapView} (hview : g.asCompareAndSwap id = some s)
    (h : g.Feeds (.swap s)) :
    Builds g (config.expandSwap id) (config.plan g.locations none g.nextId (.swap s)) := by
  obtain ⟨hcontrol, hobject, hoffset, hexpected, hnewValue, hstate⟩ := h
  let lead : Node := .withInputs .offsetAddress .address [some s.object, some s.offset]
  have hinputs : List.Forall₂ g.Fits (NodeKind.layout .offsetAddress)
      [some s.object, some s.offset] := .cons hobject (.cons hoffset .nil)
  have hlead : g.SlotsFit lead := slotsFit_withInputs hinputs .address
  have hrun : (offsetAddress s.object s.offset).run g = .ok g.nextId (g.insert lead) := by
    have hcheck : g.checkInputs g.nextId lead = .ok () := checkInputs_eq_ok_iff.mpr hlead
    rw [offsetAddress, run_add, hcheck]
  have hfeeds : (g.insert lead).Feeds (.swap s) :=
    ⟨hcontrol.insert lead, hobject.insert lead, hoffset.insert lead, hexpected.insert lead,
      hnewValue.insert lead, Fits.insertAll hstate [lead]⟩
  -- the address is new itself, and the block is emitted behind it
  have haddress : (g.insert lead).Serves g.nextId .address := serves_insert rfl
  have hblock := run_emitBlock (config.emits_swapBlock hfeeds haddress)
  rw [nextId_insert] at hblock
  rw [Builds, expandSwap, Edit.run_ask_bind, requireView, hview]
  dsimp only
  rw [run_bind_of_ok hrun, run_bind_of_ok hblock]
  have hspan : g.nextId :: (g.nextId.advance 1).span (config.swapBlock s g.nextId).steps.length =
      g.nextId.span (1 + (config.swapBlock s g.nextId).steps.length) := by
    rw [ArenaId.span_add, ArenaId.span_one, List.singleton_append]
  rw [hspan]
  rfl

/-- **The expansion of an attached access is built as planned.** -/
theorem builds_expand (wf : g.WellFormed) {id : NodeId} {node : Node}
    (hnode : g.node? id = some node) (halive : node.isAlive = true)
    (hlowerable : node.kind.isLowerable = true) :
    ∃ plan, config.planOf g g.nextId id = some plan ∧ Builds g (config.expand id) plan := by
  obtain ⟨view, hview, hfeeds⟩ := wf.exists_access hnode halive hlowerable
  have halive' : g.requireAlive id = .ok node := requireAlive_eq_ok_iff.mpr ⟨hnode, halive⟩
  have hlive := liveNode?_of_isAlive hnode halive
  have hplan : config.planOf g g.nextId id = some (config.plan g.locations
      (view.address.bind fun address => g.input address 0) g.nextId view) := by
    rw [planOf, hview]
    rfl
  refine ⟨_, hplan, ?_⟩
  rw [access?, hlive, Option.map_some] at hview
  rw [Builds, expand, Edit.run_ask_bind, halive']
  dsimp only
  cases hkind : node.kind with
  | read access =>
      rw [hkind] at hview
      obtain ⟨r, hr, rfl⟩ := Option.map_eq_some_iff.mp hview
      exact config.builds_expandRead wf hr hfeeds
  | write access initialization =>
      rw [hkind] at hview
      obtain ⟨w, hw, rfl⟩ := Option.map_eq_some_iff.mp hview
      exact config.builds_expandWrite wf hw hfeeds
  | compareAndSwap valueKind location =>
      rw [hkind] at hview
      obtain ⟨s, hs, rfl⟩ := Option.map_eq_some_iff.mp hview
      exact config.builds_expandSwap hs hfeeds
  | _ =>
      rw [hkind] at hlowerable
      cases hlowerable

/-! ## Expansions as runs -/

section Grows

variable {admits : Node → Prop} (plain : ∀ node : Node, node.Plain → admits node)
include plain

theorem within_emitStep (control : NodeId) {step : Step} (h : step.kind.isLowerable = false) :
    (emitStep control step).Within (Grows admits) :=
  fun _ => .create .refl (.add (plain _ ⟨Node.built_withInputs _ _ _, h⟩))

theorem within_emitSteps (control : NodeId) {steps : List Step}
    (h : ∀ step ∈ steps, step.kind.isLowerable = false) :
    (emitSteps control steps).Within (Grows admits) := by
  induction steps generalizing control with
  | nil => exact .pure composes_grows []
  | cons step steps ih =>
      obtain ⟨hstep, hsteps⟩ := List.forall_mem_cons.mp h
      rw [emitSteps]
      exact .bind composes_grows (within_emitStep plain control hstep) fun id =>
        .bind composes_grows (ih id hsteps) fun ids => .pure composes_grows _

theorem within_emitBlock (control : NodeId) {block : Block}
    (h : ∀ step ∈ block.steps, step.kind.isLowerable = false) :
    (emitBlock control block).Within (Grows admits) := by
  obtain ⟨hbefore, haccess, hafter⟩ : _ ∧ _ ∧ _ := by
    simpa only [Block.steps, List.forall_mem_append, List.forall_mem_cons] using h
  rw [emitBlock]
  refine .bind composes_grows (within_emitSteps plain control hbefore) fun before => ?_
  refine .bind composes_grows (within_emitStep plain _ haccess) fun access => ?_
  exact .bind composes_grows (within_emitSteps plain access hafter) fun after =>
    .pure composes_grows _

/-- **An expansion only creates nodes**, and none of them is an access. -/
theorem within_expand (id : NodeId) : (config.expand id).Within (Grows admits) := by
  rw [expand]
  refine .bind composes_grows (.ask composes_grows _) fun node => ?_
  split
  · refine .bind composes_grows (.ask composes_grows _) fun w =>
      .bind composes_grows (.get composes_grows) fun g => ?_
    have h := config.isLowerable_of_mem_steps g.locations (g.input w.address 0) g.nextId (.write w)
    exact .bind composes_grows (within_emitBlock plain _ h) fun emitted => .pure composes_grows _
  · refine .bind composes_grows (.ask composes_grows _) fun r =>
      .bind composes_grows (.get composes_grows) fun g => ?_
    have h := config.isLowerable_of_mem_steps g.locations (g.input r.address 0) g.nextId (.read r)
    exact .bind composes_grows (within_emitBlock plain _ h) fun emitted => .pure composes_grows _
  · refine .bind composes_grows (.ask composes_grows _) fun s => ?_
    refine .bind composes_grows (fun _ => .create .refl (.offsetAddress s.object s.offset))
      fun address => ?_
    have h := config.isLowerable_of_mem_steps default none address (.swap s)
    exact .bind composes_grows (within_emitBlock plain _ h) fun emitted => .pure composes_grows _
  · exact .throw composes_grows _

/-- So the configured tool is one of those that take part in runs. -/
theorem grows_tool (id : NodeId) (g : Graph) (memory : Unit) :
    Grows admits g ((config.tool id).after g memory) :=
  ToolM.Within.inTool (config.within_expand plain id) g memory

end Grows

theorem reaches_tool (id : NodeId) (g : Graph) (memory : Unit) :
    Reaches Node.Built g ((config.tool id).after g memory) :=
  (config.grows_tool (fun _ plain => plain.1) id g memory).reaches

/-- Building an expansion keeps the invariant. -/
theorem Builds.wellFormed {id : NodeId} {plan : Plan} (h : Builds g (config.expand id) plan)
    (wf : g.WellFormed) : (g.insertAll (plan.nodes g.nextId)).WellFormed := by
  have built : ∀ node : Node, node.Built → node.Built := fun _ hnode => hnode
  have grown : Grows Node.Built g ((config.expand id).after g) :=
    config.within_expand (fun _ plain => plain.1) id g
  rw [← Edit.after_of_run_ok h]
  exact grown.reaches.wellFormed built wf

end LoweringConfig

end SeaOfNodes
