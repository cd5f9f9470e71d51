import SeaOfNodes.Proofs.Lowering.Schedule
import SeaOfNodes.Proofs.Lowering.Splice

/-!
# What an expansion refers to

A lowered access is retired, and with it go its edges.  What the access referred to still matters
only as far as its expansion refers to it, in the same role.

**`Reachable.lowerNode_refersTo_iff`** says how far that is.  Whatever the access held in a role
other than control, a node of the expansion holds in that role, with one exception: the guard of an
access that checks its base for null.  A machine access has one slot for a guard, and there the null
check takes it.  The condition that had to hold before the access is then held by no node of the
expansion.

### What is load-bearing

The statement is about the roles of edges and not about slots, whose order differs between an access
and its machine access.  `Node.RefersTo` forgets the slot, and `Node.fixedInputs` lists what the
slots hold by role, so that both sides are compared as short lists (`fixedInputs_of_access?`,
`fixedInputs_readBlock` and its like).

That nothing else takes over the guard needs a look at all steps of a block, and is said of them one
by one (`Step.GuardedBy`).
-/

namespace SeaOfNodes

variable {type : InputType} {d : NodeId}

/-! ## References of nodes -/

namespace Node

variable {node : Node} {f : Renaming}

/-- A slot of the role `type` holds `d`. -/
def RefersTo (node : Node) (type : InputType) (d : NodeId) : Prop :=
  ∃ slot info, node.slotInfo slot = some info ∧ info.inputType = type ∧ node.input slot = some d

theorem refersTo_rename :
    (node.rename f).RefersTo type d ↔ ∃ old, node.RefersTo type old ∧ f type old = d := by
  constructor
  · rintro ⟨slot, info, hinfo, rfl, hinput⟩
    rw [slotInfo_rename] at hinfo
    rw [input_rename_of_slotInfo hinfo, Option.map_eq_some_iff] at hinput
    obtain ⟨old, hold, rfl⟩ := hinput
    exact ⟨old, ⟨slot, info, hinfo, rfl, hold⟩, rfl⟩
  · rintro ⟨old, ⟨slot, info, hinfo, rfl, hold⟩, rfl⟩
    refine ⟨slot, info, (slotInfo_rename ..).trans hinfo, rfl, ?_⟩
    rw [input_rename_of_slotInfo hinfo, hold]
    rfl

/-- What the fixed slots hold, each with its role. -/
def fixedInputs (node : Node) : List (InputType × Option NodeId) :=
  node.kind.layout.mapIdx fun slot info => (info.inputType, node.input slot)

/-- A node of a kind without further values refers to what its fixed slots hold. -/
theorem refersTo_iff (h : node.kind.variadic = none) :
    node.RefersTo type d ↔ (type, some d) ∈ node.fixedInputs := by
  rw [fixedInputs, List.mem_mapIdx]
  constructor
  · rintro ⟨slot, info, hinfo, rfl, hinput⟩
    have hlayout : node.kind.layout[slot]? = some info := by
      unfold slotInfo at hinfo
      split at hinfo
      · next found hfound => rw [hfound, hinfo]
      · rw [h, Option.map_none, ite_self] at hinfo
        cases hinfo
    obtain ⟨hlt, rfl⟩ := List.getElem?_eq_some_iff.mp hlayout
    exact ⟨slot, hlt, by rw [hinput]⟩
  · rintro ⟨slot, hlt, he⟩
    obtain ⟨rfl, hinput⟩ := Prod.mk.inj he
    exact ⟨slot, _, slotInfo_of_layout (List.getElem?_eq_getElem hlt), rfl, hinput⟩

end Node

/-! ## References of accesses -/

/-- Whether a node of this kind checks its base for null. -/
def NodeKind.checksNull : NodeKind → Bool
  | .read access | .write access _ => access.nullCheck
  | _ => false

namespace AccessView

/-- What the access holds in the slots after control, each with its role. -/
def operands : AccessView → List (InputType × Option NodeId)
  | read r => [(.address, r.address), (.guard, r.guard), (.memory, r.lastLocationAccess)]
  | write w =>
    [(.address, w.address), (.value, w.value), (.guard, w.guard), (.state, w.stateAfter),
      (.memory, w.lastLocationAccess)]
  | swap s =>
    [(.value, s.object), (.value, s.offset), (.value, s.expected), (.value, s.newValue),
      (.state, s.stateAfter)]

theorem checksNull_kind (view : AccessView) : view.kind.checksNull = view.nullCheck := by
  cases view <;> rfl

end AccessView

namespace Graph

variable {g g' : Graph} {id : NodeId} {view : AccessView} {node : Node} {plan : Plan}
  {config : LoweringConfig}

/-- The attached node at `id` refers to `d` in the role `type`. -/
def RefersTo (g : Graph) (id : NodeId) (type : InputType) (d : NodeId) : Prop :=
  ∃ node, g.liveNode? id = some node ∧ node.RefersTo type d

/-- Whether the node at `id` checks its base for null. -/
def checksNull (g : Graph) (id : NodeId) : Bool := (g.node? id).any (·.kind.checksNull)

/-- A view shows every slot of the access. -/
theorem fixedInputs_of_access? (hview : g.access? id = some view)
    (hnode : g.liveNode? id = some node) :
    node.kind.variadic = none ∧
      node.fixedInputs = (.control, some view.control) :: view.operands := by
  unfold access? at hview
  rw [hnode, Option.map_some] at hview
  unfold Node.fixedInputs
  cases hkind : node.kind with
  | read access =>
      rw [hkind] at hview
      obtain ⟨r, hr, rfl⟩ := Option.map_eq_some_iff.mp hview
      simp only [asRead, hnode, hkind, Option.bind_eq_bind, Option.bind_some,
        Option.bind_eq_some_iff] at hr
      obtain ⟨control, hcontrol, address, haddress, he⟩ := hr
      cases he
      refine ⟨rfl, ?_⟩
      simp only [AccessView.operands, AccessView.control, ← hcontrol, ← haddress, Node.inputOf,
        hkind]
      rfl
  | write access initialization =>
      rw [hkind] at hview
      obtain ⟨w, hw, rfl⟩ := Option.map_eq_some_iff.mp hview
      simp only [asWrite, hnode, hkind, Option.bind_eq_bind, Option.bind_some,
        Option.bind_eq_some_iff] at hw
      obtain ⟨control, hcontrol, address, haddress, value, hvalue, he⟩ := hw
      cases he
      refine ⟨rfl, ?_⟩
      simp only [AccessView.operands, AccessView.control, ← hcontrol, ← haddress, ← hvalue,
        Node.inputOf, hkind]
      rfl
  | compareAndSwap valueKind location =>
      rw [hkind] at hview
      obtain ⟨s, hs, rfl⟩ := Option.map_eq_some_iff.mp hview
      simp only [asCompareAndSwap, hnode, hkind, Option.bind_eq_bind, Option.bind_some,
        Option.bind_eq_some_iff] at hs
      obtain ⟨control, hcontrol, object, hobject, offset, hoffset, expected, hexpected, newValue,
        hnewValue, he⟩ := hs
      cases he
      refine ⟨rfl, ?_⟩
      simp only [AccessView.operands, AccessView.control, ← hcontrol, ← hobject, ← hoffset,
        ← hexpected, ← hnewValue, Node.inputOf, hkind]
      rfl
  | _ =>
      rw [hkind] at hview
      cases hview

/-- What an access refers to in a role other than control is an operand of it. -/
theorem refersTo_iff_of_access? (hview : g.access? id = some view)
    (hnode : g.liveNode? id = some node) (htype : type ≠ .control) :
    g.RefersTo id type d ↔ (type, some d) ∈ view.operands := by
  obtain ⟨hvariadic, hinputs⟩ := fixedInputs_of_access? hview hnode
  have hrefers : g.RefersTo id type d ↔ node.RefersTo type d := by
    simp only [RefersTo, hnode, Option.some.injEq, exists_eq_left']
  rw [hrefers, Node.refersTo_iff hvariadic, hinputs, List.mem_cons, or_iff_right]
  exact fun he => htype (congrArg Prod.fst he)

end Graph

/-! ## References of planned nodes -/

namespace LoweringConfig

variable (config : LoweringConfig) (kind : ValueKind) (object check : Option NodeId)
  (control : NodeId)

/-! What a machine access holds.  Its guard is the check, if there is one. -/

theorem fixedInputs_readBlock (r : ReadView) :
    ((config.readBlock r kind object check).access.node control).fixedInputs =
      [(.control, some control), (.address, some r.address), (.guard, check.or r.guard),
        (.memory, r.lastLocationAccess)] := rfl

theorem fixedInputs_writeBlock (w : WriteView) :
    ((config.writeBlock w kind object check).access.node control).fixedInputs =
      [(.control, some control), (.address, some w.address), (.value, some w.value),
        (.guard, check.or w.guard), (.memory, w.lastLocationAccess), (.state, w.stateAfter)] := rfl

theorem fixedInputs_swapBlock (s : SwapView) (address : NodeId) :
    ((config.swapBlock s address).access.node control).fixedInputs =
      [(.control, some control), (.address, some address), (.value, some s.expected),
        (.value, some s.newValue), (.state, s.stateAfter)] := rfl

end LoweringConfig

namespace Step

variable {check : NodeId}

/-- Every guard that the node of the step refers to is `check`. -/
def GuardedBy (check : NodeId) (step : Step) : Prop :=
  ∀ control d, (step.node control).RefersTo .guard d → d = check

/-- A step without a slot for a guard refers to none. -/
theorem guardedBy_of_notMem {step : Step} (hvariadic : step.kind.variadic = none)
    (hguard : .guard ∉ step.kind.layout.map SlotInfo.inputType) : step.GuardedBy check := by
  intro control d hrefers
  have hmem := (Node.refersTo_iff (show (step.node control).kind.variadic = none from hvariadic)).mp
    hrefers
  obtain ⟨slot, hlt, he⟩ := List.mem_mapIdx.mp hmem
  have htype : (step.kind.layout[slot]).inputType = .guard := congrArg Prod.fst he
  exact absurd (List.mem_map.mpr ⟨_, List.getElem_mem hlt, htype⟩) hguard

theorem guardedBy_nullCheck (object : Option NodeId) : (nullCheck object).GuardedBy check :=
  guardedBy_of_notMem rfl (show _ ∉ [InputType.control, .value] by decide)

theorem guardedBy_fence (kind : Fence) : (fence kind).GuardedBy check :=
  guardedBy_of_notMem rfl (show _ ∉ [InputType.control] by decide)

theorem guardedBy_barrier (kind : WriteBarrier) (address : NodeId) (value : Option NodeId) :
    (barrier kind address value).GuardedBy check :=
  guardedBy_of_notMem rfl (show _ ∉ [InputType.control, .address, .value] by decide)

end Step

namespace LoweringConfig

variable {config : LoweringConfig} {g : Graph} {base id : NodeId} {plan : Plan} {view : AccessView}

/-- **An operand of the access is referred to by a new node**, in its role, unless it is the guard
of an access that checks its base. -/
theorem exists_refersTo_plan (locations : LocationUniverse) (object : Option NodeId)
    (hmem : (type, some d) ∈ view.operands)
    (hkept : ¬ (type = .guard ∧ view.nullCheck = true)) :
    ∃ new ∈ (config.plan locations object base view).nodes base, new.RefersTo type d := by
  obtain ⟨control, haccess⟩ := (config.plan locations object base view).exists_access base
  have haccess := List.mem_of_getElem? haccess
  have hguard : ∀ guard : Option NodeId, type = .guard →
      (if view.nullCheck then some base else none).or guard = guard := by
    intro guard htype
    rw [if_neg fun hcheck => hkept ⟨htype, hcheck⟩, Option.none_or]
  -- the machine access has a slot for every operand, but for the parts of an address
  cases view with
  | read r =>
      refine ⟨_, haccess, (Node.refersTo_iff rfl).mpr ?_⟩
      rw [plan, fixedInputs_readBlock]
      simp only [AccessView.operands, List.mem_cons, Prod.mk.injEq, List.not_mem_nil,
        or_false] at hmem ⊢
      rcases hmem with haddress | ⟨rfl, hd⟩ | hmemory
      · exact .inr (.inl haddress)
      · exact .inr (.inr (.inl ⟨rfl, hd.trans (hguard r.guard rfl).symm⟩))
      · exact .inr (.inr (.inr hmemory))
  | write w =>
      refine ⟨_, haccess, (Node.refersTo_iff rfl).mpr ?_⟩
      rw [plan, fixedInputs_writeBlock]
      simp only [AccessView.operands, List.mem_cons, Prod.mk.injEq, List.not_mem_nil,
        or_false] at hmem ⊢
      rcases hmem with haddress | hvalue | ⟨rfl, hd⟩ | hstate | hmemory
      · exact .inr (.inl haddress)
      · exact .inr (.inr (.inl hvalue))
      · exact .inr (.inr (.inr (.inl ⟨rfl, hd.trans (hguard w.guard rfl).symm⟩)))
      · exact .inr (.inr (.inr (.inr (.inr hstate))))
      · exact .inr (.inr (.inr (.inr (.inl hmemory))))
  | swap s =>
      have hlead : .withInputs .offsetAddress .address [some s.object, some s.offset] ∈
          (config.plan locations object base (.swap s)).nodes base := List.mem_cons_self
      simp only [AccessView.operands, List.mem_cons, List.not_mem_nil, or_false] at hmem
      rcases hmem with hobject | hoffset | hmem
      · exact ⟨_, hlead, (Node.refersTo_iff rfl).mpr (hobject ▸ List.mem_cons_self)⟩
      · exact ⟨_, hlead, (Node.refersTo_iff rfl).mpr
          (hoffset ▸ List.mem_cons_of_mem _ List.mem_cons_self)⟩
      · refine ⟨_, haccess, (Node.refersTo_iff rfl).mpr ?_⟩
        rw [plan, fixedInputs_swapBlock]
        simp only [List.mem_cons, List.not_mem_nil, or_false]
        exact .inr (.inr hmem)

/-- A machine access behind a null check is guarded by that check, and nothing else is guarded. -/
theorem guardedBy_of_mem_steps (locations : LocationUniverse) (object : Option NodeId)
    (hcheck : view.nullCheck = true) :
    ∀ step ∈ (config.plan locations object base view).block.steps, step.GuardedBy base := by
  cases view with
  | read r =>
      refine List.forall_mem_append.mpr
        ⟨Graph.forall_mem_stepIf fun _ => Step.guardedBy_nullCheck _, List.forall_mem_cons.mpr
          ⟨fun control d hrefers => ?_, Graph.forall_mem_stepIf fun _ => Step.guardedBy_fence _⟩⟩
      have hcheck : r.access.nullCheck = true := hcheck
      rw [Node.refersTo_iff rfl, plan, fixedInputs_readBlock, if_pos hcheck] at hrefers
      simpa using hrefers
  | write w =>
      have hbarriers : ∀ {barrier : Option WriteBarrier} {value : Option NodeId},
          ∀ step ∈ barrier.toList.map (Step.barrier · w.address value), step.GuardedBy base := by
        intro barrier value step hstep
        obtain ⟨kind, -, rfl⟩ := List.mem_map.mp hstep
        exact Step.guardedBy_barrier kind _ _
      refine List.forall_mem_append.mpr ⟨List.forall_mem_append.mpr ⟨List.forall_mem_append.mpr
        ⟨Graph.forall_mem_stepIf fun _ => Step.guardedBy_nullCheck _, hbarriers⟩,
        Graph.forall_mem_stepIf fun _ => Step.guardedBy_fence _⟩,
        List.forall_mem_cons.mpr ⟨fun control d hrefers => ?_, List.forall_mem_append.mpr
          ⟨hbarriers, Graph.forall_mem_stepIf fun _ => Step.guardedBy_fence _⟩⟩⟩
      have hcheck : w.access.nullCheck = true := hcheck
      rw [Node.refersTo_iff rfl, plan, fixedInputs_writeBlock, if_pos hcheck] at hrefers
      simpa using hrefers
  | swap s => cases hcheck

/-- No new node but the first, a null check, serves as a guard in the place of an access that checks
its base. -/
theorem eq_base_of_refersTo_plan (locations : LocationUniverse) (object : Option NodeId)
    (hcheck : view.nullCheck = true) {new : Node}
    (hnew : new ∈ (config.plan locations object base view).nodes base)
    (hrefers : new.RefersTo .guard d) : d = base := by
  have hlead : (config.plan locations object base view).lead = [] := by
    cases view with
    | read | write => rfl
    | swap => cases hcheck
  rw [Plan.nodes, hlead, List.nil_append] at hnew
  obtain ⟨j, hj⟩ := List.mem_iff_getElem?.mp hnew
  rw [Step.getElem?_chain, Option.map_eq_some_iff] at hj
  obtain ⟨step, hstep, rfl⟩ := hj
  exact guardedBy_of_mem_steps locations object hcheck step (List.mem_of_getElem? hstep) _ _ hrefers

/-- **What a plan keeps of what the access refers to.** -/
theorem refersTo_planOf_iff (hplan : config.planOf g base id = some plan)
    (hrefers : g.RefersTo id type d) (htype : type ≠ .control) (hne : d ≠ base) :
    (∃ new ∈ plan.nodes base, new.RefersTo type d) ↔
      ¬ (type = .guard ∧ g.checksNull id = true) := by
  obtain ⟨view, hview, rfl⟩ := Option.map_eq_some_iff.mp hplan
  have ⟨node, hlive, _⟩ := hrefers
  have hcheck : g.checksNull id = view.nullCheck := by
    rw [Graph.checksNull, (Graph.liveNode?_eq_some_iff.mp hlive).1, Option.any_some,
      ← Graph.kind_of_access? hview hlive, AccessView.checksNull_kind]
  rw [hcheck]
  constructor
  · rintro ⟨new, hnew, hguard⟩ ⟨rfl, hcheck⟩
    exact hne (eq_base_of_refersTo_plan _ _ hcheck hnew hguard)
  · exact exists_refersTo_plan _ _ ((Graph.refersTo_iff_of_access? hview hlive htype).mp hrefers)

end LoweringConfig

/-! ## References of expansions -/

namespace Graph

variable {g g' : Graph} {id : NodeId} {plan : Plan}

/-- What a listed node refers to among the old nodes, the planned one does. -/
theorem Splices.refersTo_iff (h : g.Splices id plan g') (hold : d.index < g.size) (hne : d ≠ id) :
    (∃ n ∈ (plan.replacement g.nextId).nodes, g'.RefersTo n type d) ↔
      ∃ new ∈ plan.nodes g.nextId, new.RefersTo type d := by
  refine h.exists_listed_iff.trans (exists_congr fun new => and_congr_right fun _ => ?_)
  have hold : d.index < g.nextId.index := hold
  rw [Node.refersTo_rename]
  simp only [reroute_replacement_eq_iff hold hne, exists_eq_right]
  exact Iff.rfl

theorem WellFormed.lt_size_of_refersTo (wf : g.WellFormed) (h : g.RefersTo id type d) :
    d.index < g.size := by
  obtain ⟨node, hlive, slot, info, -, -, hinput⟩ := h
  obtain ⟨hnode, halive⟩ := liveNode?_eq_some_iff.mp hlive
  exact ((wf.node hnode).slotsFit halive).lt_size (mem_slots_iff.mpr ⟨slot, hinput⟩)

/-- What the expansion of an access refers to, of what the access referred to. -/
theorem WellFormed.splices_refersTo_iff (wf : g.WellFormed) {config : LoweringConfig}
    (hplan : config.planOf g g.nextId id = some plan) (spliced : g.Splices id plan g')
    (hrefers : g.RefersTo id type d) (htype : type ≠ .control) (hne : d ≠ id) :
    (∃ n ∈ (plan.replacement g.nextId).nodes, g'.RefersTo n type d) ↔
      ¬ (type = .guard ∧ g.checksNull id = true) := by
  have hold := wf.lt_size_of_refersTo hrefers
  have hne' : d ≠ g.nextId := by
    rintro rfl
    exact Nat.lt_irrefl _ hold
  exact (spliced.refersTo_iff hold hne).trans
    (LoweringConfig.refersTo_planOf_iff hplan hrefers htype hne')

/-- **What lowering keeps of the dependencies of an access.**  From every graph that a run leads to
and for every configuration, lowering an attached access succeeds; and another node that the access
referred to, in a role other than control, is referred to in that role by a node of the expansion
exactly if it was not the guard of an access that checks its base for null. -/
theorem Reachable.lowerNode_refersTo_iff (h : g.Reachable) (config : LoweringConfig)
    (hid : g.isLowerable id = true) :
    ∃ r g', (lowerNode config.tool id).run (g, ()) = .ok r (g', ()) ∧
      ∀ type d, g.RefersTo id type d → type ≠ .control → d ≠ id →
        ((∃ n ∈ r.nodes, g'.RefersTo n type d) ↔
          ¬ (type = .guard ∧ g.checksNull id = true)) := by
  obtain ⟨node, hnode, halive, hlowerable⟩ := isLowerable_iff.mp hid
  obtain ⟨plan, g', hplan, hrun, spliced⟩ :=
    run_lowerNode config h.wellFormed hnode halive hlowerable
  exact ⟨_, g', hrun, fun type d => h.wellFormed.splices_refersTo_iff hplan spliced⟩

/-- A store that checks its base for null, behind a guard that checks another object. -/
def guardedStore : Graph :=
  (addWrite {
    control := ⟨6⟩, address := ⟨4⟩, location := LocationUniverse.anyId, value := ⟨5⟩
    nullCheck := true, guard := some ⟨6⟩ }).after <|
  (nullCheckGuard ⟨0⟩ ⟨2⟩).after <|
  (constInt 7 .int).after <|
  (offsetAddress ⟨1⟩ ⟨3⟩).after <|
  (constInt 16 .long).after <|
  (parameter 1 (.object false)).after <|
  (parameter 0 (.object false)).after new

theorem reachable_guardedStore : guardedStore.Reachable :=
  .edit (.edit (.edit (.edit (.edit (.edit (.edit (.refl new) (.parameter _ _)) (.parameter _ _))
    (.constInt _ _)) (.offsetAddress _ _)) (.constInt _ _)) (.nullCheckGuard _ _)) (.addWrite _)

theorem refersTo_guardedStore :
    guardedStore.isLowerable ⟨7⟩ = true ∧ guardedStore.checksNull ⟨7⟩ = true ∧
      guardedStore.RefersTo ⟨7⟩ .guard ⟨6⟩ ∧ guardedStore.RefersTo ⟨7⟩ .value ⟨5⟩ :=
  ⟨by decide +kernel, by decide +kernel, ⟨_, rfl, 3, .guard, rfl, rfl, rfl⟩,
    ⟨_, rfl, 2, .required "value" .value, rfl, rfl, rfl⟩⟩

/-- The value of the guarded store is what the new store stores. -/
theorem value_kept_guardedStore :
    guardedStore.Reachable ∧ guardedStore.isLowerable ⟨7⟩ = true ∧
      guardedStore.RefersTo ⟨7⟩ .value ⟨5⟩ ∧
      ∃ r g', (lowerNode LoweringConfig.forTesting.tool ⟨7⟩).run (guardedStore, ()) =
        .ok r (g', ()) ∧ ∃ n ∈ r.nodes, g'.RefersTo n .value ⟨5⟩ := by
  obtain ⟨hid, -, -, hvalue⟩ := refersTo_guardedStore
  obtain ⟨r, g', hrun, hkept⟩ :=
    Reachable.lowerNode_refersTo_iff reachable_guardedStore .forTesting hid
  exact ⟨reachable_guardedStore, hid, hvalue, r, g', hrun,
    (hkept .value ⟨5⟩ hvalue (by decide) (by decide)).mpr fun h => absurd h.1 (by decide)⟩

/-- The guard of the guarded store is the guard of no node of its expansion. -/
theorem guard_dropped_guardedStore :
    guardedStore.Reachable ∧ guardedStore.isLowerable ⟨7⟩ = true ∧
      guardedStore.RefersTo ⟨7⟩ .guard ⟨6⟩ ∧
      ∃ r g', (lowerNode LoweringConfig.forTesting.tool ⟨7⟩).run (guardedStore, ()) =
        .ok r (g', ()) ∧ ¬ ∃ n ∈ r.nodes, g'.RefersTo n .guard ⟨6⟩ := by
  obtain ⟨hid, hcheck, hguard, -⟩ := refersTo_guardedStore
  obtain ⟨node, hnode, halive, hlowerable⟩ := isLowerable_iff.mp hid
  have wf := reachable_guardedStore.wellFormed
  obtain ⟨plan, g', hplan, hrun, spliced⟩ :=
    run_lowerNode .forTesting wf hnode halive hlowerable
  refine ⟨reachable_guardedStore, hid, hguard, _, g', hrun, fun hkept => ?_⟩
  have hdropped := wf.splices_refersTo_iff hplan spliced hguard (by decide) (by decide)
  exact hdropped.mp hkept ⟨rfl, hcheck⟩

end Graph

end SeaOfNodes
