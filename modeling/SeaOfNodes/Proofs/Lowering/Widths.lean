import SeaOfNodes.Proofs.Access.Requests
import SeaOfNodes.Proofs.Lowering.References
import SeaOfNodes.Proofs.Lowering.Tally

/-!
# How wide machine accesses are

A machine access names the kind of value that it touches, and with it the width.  For a load or a
store this is the kind that the location declares, or a machine word if it declares none
(`LocationUniverse.accessKind`); for a swap it is the kind that was asked for.  Requests are checked
before that, and only against values as they are on the operand stack.  This module says what is
left of the check when the machine access is there.

* **`Reachable.storesShape_iff`**: a store has the shape of the value that it stores exactly if the
  location declares a kind or the value is a machine word.
* **`Reachable.swap_width_iff`**: a swap that was accepted is as wide as the kind that it asked for,
  the loads and stores of the location are as wide as the declared one; and whatever is accepted in
  the place of that kind is as wide as the declared one exactly if values of the location do not
  widen to `int` on the operand stack.

### What is load-bearing

The width is a function of the kind of the machine access alone (`NodeKind.width`), and the kind of
the machine access a function of the kind of the access (`LoweringConfig.machineKind`).  The
operands matter only for stores: the value of the machine store is the one that was requested, since
it is older than the write and so not renamed (`reroute_replacement_eq_iff`).
-/

namespace SeaOfNodes

/-- How many bits of memory a machine access of this kind touches. -/
def NodeKind.width : NodeKind → Option Nat
  | .rawLoad access | .rawStore access => some access.kind.bits
  | .atomicCas valueKind _ _ => some valueKind.bits
  | _ => none

namespace LocationIdentity

/-- **What a location accepts has the shape of its kind** if it declares one; otherwise only a
machine word has the shape that is taken for it. -/
theorem compatible_getD_iff {identity : LocationIdentity} {stamp : Stamp}
    (h : identity.accepts stamp = true) :
    (Stamp.onStack (identity.valueKind.getD .long)).compatible stamp = true ↔
      identity.valueKind.isSome = true ∨ stamp = .integer 64 := by
  unfold accepts at h
  cases hkind : identity.valueKind with
  | some kind =>
      rw [hkind] at h
      exact iff_of_true (Stamp.compatible_comm stamp _ ▸ h) (.inl rfl)
  | none =>
      have hword : Stamp.onStack .long = .integer 64 := rfl
      rw [Option.getD_none, hword, Option.isSome_none, or_iff_right Bool.false_ne_true]
      cases stamp with
      | integer bits =>
          rw [Stamp.compatible, beq_iff_eq, Stamp.integer.injEq]
          exact eq_comm
      | _ => simp [Stamp.compatible]

end LocationIdentity

namespace ValueKind

/-- Only integers below a machine word widen. -/
theorem stackKind_eq_self {kind : ValueKind} (h : kind.stackKind ≠ .int) :
    kind.stackKind = kind := by
  cases kind <;> first | rfl | exact absurd rfl h

/-- **Kinds that widen alike are equally wide**, unless they widen to `int`. -/
theorem forall_bits_eq_iff (kind : ValueKind) :
    (∀ other : ValueKind, other.stackKind = kind.stackKind → other.bits = kind.bits) ↔
      kind.stackKind ≠ .int := by
  constructor
  · intro h hint
    have hbyte := h .byte hint.symm
    have hshort := h .short hint.symm
    exact absurd (hbyte.trans hshort.symm) (by decide)
  · intro h other hother
    have hself : other.stackKind = other := stackKind_eq_self (hother ▸ h)
    rw [← hself, hother, stackKind_eq_self h]

end ValueKind

namespace Graph

variable {g g' : Graph} {id store : NodeId} {node : Node} {config : LoweringConfig}
  {request : WriteRequest} {swap : SwapRequest}

/-! ## Stores -/

/-- The attached raw store has the shape of what it stores. -/
def StoresShape (g : Graph) (store : NodeId) : Prop :=
  ∃ node access stamp, g.liveNode? store = some node ∧ node.kind = .rawStore access ∧
    g.slotStamp node 2 = some stamp ∧ (Stamp.onStack access.kind).compatible stamp = true

theorem storesShape_iff_of_liveNode? {access : RawAccess} {value : NodeId} {stamp : Stamp}
    (hlive : g.liveNode? store = some node) (hkind : node.kind = .rawStore access)
    (hinput : node.input 2 = some value) (hstamp : g.stamp? value = some stamp) :
    g.StoresShape store ↔ (Stamp.onStack access.kind).compatible stamp = true := by
  have hslot : g.slotStamp node 2 = some stamp := by
    rw [slotStamp, hinput, Option.bind_some, hstamp]
  constructor
  · rintro ⟨node', access', stamp', hlive', hkind', hslot', hfits⟩
    cases hlive.symm.trans hlive'
    cases hkind.symm.trans hkind'
    cases hslot.symm.trans hslot'
    exact hfits
  · exact fun hfits => ⟨node, access, stamp, hlive, hkind, hslot, hfits⟩

/-- Lowering another node leaves stamps alone. -/
theorem Splices.stamp?_old {plan : Plan} {x : NodeId} (h : g.Splices id plan g') (hne : x ≠ id)
    (hold : x.index < g.size) : g'.stamp? x = g.stamp? x := by
  rw [stamp?, stamp?, h.old x hne hold, Option.map_map]
  exact congrArg (Option.map · (g.node? x)) (funext fun node => Node.stamp_redirect _ node)

/-- **The machine store of a write** stores the value that the write did. -/
theorem Splices.exists_store {plan : Plan} {w : WriteView} (h : g.Splices id plan g')
    (hplan : config.planOf g g.nextId id = some plan) (hview : g.access? id = some (.write w))
    (hne : w.value ≠ id) :
    ∃ store node, (plan.replacement g.nextId).memory = some store ∧
      store ∈ (plan.replacement g.nextId).nodes ∧ g'.liveNode? store = some node ∧
      node.kind = .rawStore
        ⟨w.access.location, g.locations.accessKind w.access.location, w.access.order⟩ ∧
      node.input 2 = some w.value := by
  obtain ⟨control, hmemory, hlisted, hlive⟩ := h.exists_access
  rw [LoweringConfig.planOf, hview, Option.map_some, Option.some.injEq] at hplan
  subst hplan
  refine ⟨_, _, hmemory, hlisted, hlive, rfl, ?_⟩
  have hinfo : (NodeKind.rawStore
      ⟨w.access.location, g.locations.accessKind w.access.location, w.access.order⟩).layout[2]? =
        some (.required "value" .value) := rfl
  rw [Node.input_rename_of_layout _ rfl hinfo]
  exact congrArg some (if_neg hne)

/-- The write that was requested, as it is viewed in the graph. -/
theorem access?_insert_writeNode (g : Graph) (request : WriteRequest) :
    (g.insert (writeNode request)).access? g.nextId = some (.write {
      id := g.nextId, control := request.control, address := request.address
      value := request.value, initialization := request.initialization
      access := ⟨request.location, request.barrier, request.nullCheck, request.order⟩
      guard := request.guard, stateAfter := request.stateAfter
      lastLocationAccess := request.lastLocationAccess }) := by
  unfold access? asWrite
  rw [liveNode?_insert]
  rfl

/-- Lowering a write that was requested leads to a raw store of the requested value. -/
theorem Reachable.lowers_accepted_write (h : g.Reachable) {k : Graph}
    (haccepted : (addWrite request).run g = .ok id k) (config : LoweringConfig) :
    ∃ r g' store node, (lowerNode config.tool id).run (k, ()) = .ok r (g', ()) ∧
      r.memory = some store ∧ store ∈ r.nodes ∧ g'.liveNode? store = some node ∧
      node.kind = .rawStore
        ⟨request.location, g.locations.accessKind request.location, request.order⟩ ∧
      node.input 2 = some request.value ∧ g'.stamp? request.value = g.stamp? request.value := by
  obtain ⟨-, -, hfits, rfl, rfl⟩ := run_addWrite_eq_ok_iff.mp haccepted
  have wf := (h.of_run_ok (.addWrite request) haccepted).wellFormed
  obtain ⟨plan, g', hplan, hrun, spliced⟩ :=
    run_lowerNode_of_liveNode? config wf (g.liveNode?_insert _) rfl
  -- the value is older than the write
  have hold : request.value.index < g.size := hfits.lt_size (mem_slots_iff.mpr ⟨2, rfl⟩)
  have hne : request.value ≠ g.nextId := by
    intro he
    exact Nat.lt_irrefl g.size (by rwa [he] at hold)
  have hstamp : g'.stamp? request.value = g.stamp? request.value := by
    rw [spliced.stamp?_old hne (by rw [size_insert]; omega), stamp?, node?_insert, if_neg hne.symm]
    rfl
  obtain ⟨store, node, hmemory, hlisted, hstore, hkind, hinput⟩ :=
    spliced.exists_store hplan (g.access?_insert_writeNode request) hne
  rw [locations_insert] at hkind
  exact ⟨_, g', store, node, hrun, hmemory, hlisted, hstore, hkind, hinput, hstamp⟩

/-- **Which stores have the shape of the value that they store.**  In every graph that a run leads
to, and for every configuration, lowering a write that was requested leads to a raw store of the
requested value.  It has the shape of that value exactly if the location declares a kind or the
value is a machine word. -/
theorem Reachable.storesShape_iff (h : g.Reachable) {k : Graph}
    (haccepted : (addWrite request).run g = .ok id k) (config : LoweringConfig) :
    ∃ r g' store node, (lowerNode config.tool id).run (k, ()) = .ok r (g', ()) ∧
      r.memory = some store ∧ store ∈ r.nodes ∧ g'.liveNode? store = some node ∧
      node.kind = .rawStore
        ⟨request.location, g.locations.accessKind request.location, request.order⟩ ∧
      node.input 2 = some request.value ∧
      (g'.StoresShape store ↔ (g.locations.valueKind request.location).isSome = true ∨
        g.stamp? request.value = some (.integer 64)) := by
  obtain ⟨r, g', store, node, hrun, hmemory, hlisted, hstore, hkind, hinput, hsame⟩ :=
    h.lowers_accepted_write haccepted config
  refine ⟨r, g', store, node, hrun, hmemory, hlisted, hstore, hkind, hinput, ?_⟩
  obtain ⟨-, hcheck, -⟩ := run_addWrite_eq_ok_iff.mp haccepted
  have hvalue : (writeNode request).input 2 = some request.value := rfl
  obtain ⟨identity, stamp, hidentity, hstamp, haccepts⟩ := valueFits_of_check hcheck hvalue
  have hstamp : g.stamp? request.value = some stamp := hstamp
  have hdeclared : g.locations.valueKind request.location = identity.valueKind := by
    rw [LocationUniverse.valueKind, hidentity, Option.bind_some]
  rw [storesShape_iff_of_liveNode? hstore hkind hinput (hsame.trans hstamp), hstamp, hdeclared,
    Option.some.injEq, ← identity.compatible_getD_iff haccepts, LocationUniverse.accessKind,
    hdeclared]

/-- An object, the address of its mark word, which declares no kind, and a constant of a kind. -/
def markWord (kind : ValueKind) : Graph :=
  (constInt 7 kind).after <|
  (offsetAddress ⟨1⟩ ⟨2⟩).after <|
  (constInt 16 .long).after <|
  (parameter 0 (.object false)).after <|
  (internLocation (.named "mark_word" false)).after new

theorem reachable_markWord (kind : ValueKind) : (markWord kind).Reachable :=
  .edit (.edit (.edit (.edit (.edit (.refl new) (.internLocation _)) (.parameter _ _))
    (.constInt _ _)) (.offsetAddress _ _)) (.constInt _ _)

/-- The store of the constant into the mark word. -/
def storeMark : WriteRequest where
  control := ⟨0⟩
  address := ⟨3⟩
  location := ⟨2⟩
  value := ⟨4⟩

/-- It is accepted whatever the kind, as long as that is a kind of values. -/
theorem exists_accepted_storeMark (kind : ValueKind) (hkind : kind ≠ .void) :
    ∃ id k, (addWrite storeMark).run (markWord kind) = .ok id k := by
  have hinputs : (markWord kind).checkInputs ⟨5⟩ (writeNode storeMark) = .ok () := by
    cases kind <;> rfl
  refine ⟨_, _, run_addWrite_eq_ok_iff.mpr ⟨?_, ?_, checkInputs_eq_ok_iff.mp hinputs, rfl, rfl⟩⟩
  · cases kind <;> rfl
  · cases kind <;> first | exact absurd rfl hkind | rfl

/-- A machine word that is stored into the mark word is stored by a store of its shape. -/
theorem storesShape_markWord_long :
    (markWord .long).Reachable ∧ ∃ id k, (addWrite storeMark).run (markWord .long) = .ok id k ∧
      ∃ r g' store, (lowerNode LoweringConfig.forTesting.tool id).run (k, ()) = .ok r (g', ()) ∧
        r.memory = some store ∧ g'.StoresShape store := by
  obtain ⟨id, k, haccepted⟩ := exists_accepted_storeMark .long (by decide)
  obtain ⟨r, g', store, -, hrun, hmemory, -, -, -, -, hshape⟩ :=
    Reachable.storesShape_iff (reachable_markWord .long) haccepted .forTesting
  exact ⟨reachable_markWord .long, id, k, haccepted, r, g', store, hrun, hmemory,
    hshape.mpr (.inr rfl)⟩

/-- An `int` that is stored into the mark word is stored by a store of another shape. -/
theorem not_storesShape_markWord_int :
    (markWord .int).Reachable ∧ ∃ id k, (addWrite storeMark).run (markWord .int) = .ok id k ∧
      ∃ r g' store, (lowerNode LoweringConfig.forTesting.tool id).run (k, ()) = .ok r (g', ()) ∧
        r.memory = some store ∧ ¬ g'.StoresShape store := by
  obtain ⟨id, k, haccepted⟩ := exists_accepted_storeMark .int (by decide)
  obtain ⟨r, g', store, node, hrun, hmemory, -, hstore, hkind, hinput, hsame⟩ :=
    (reachable_markWord .int).lowers_accepted_write haccepted .forTesting
  have hstamp : (markWord .int).stamp? storeMark.value = some (.integer 32) := rfl
  have hword : (markWord .int).locations.accessKind storeMark.location = .long := rfl
  refine ⟨reachable_markWord .int, id, k, haccepted, r, g', store, hrun, hmemory, fun hshape => ?_⟩
  rw [hword] at hkind
  have hcompatible :=
    (storesShape_iff_of_liveNode? hstore hkind hinput (hsame.trans hstamp)).mp hshape
  exact absurd hcompatible (by decide)

/-! ## Swaps -/

/-- Lowering the access at `id` succeeds, and its machine access touches `bits` bits. -/
def LowersToWidth (g : Graph) (config : LoweringConfig) (id : NodeId) (bits : Nat) : Prop :=
  ∃ r g' raw node, (lowerNode config.tool id).run (g, ()) = .ok r (g', ()) ∧
    r.memory = some raw ∧ raw ∈ r.nodes ∧ g'.liveNode? raw = some node ∧
    node.kind.width = some bits

/-- **How wide the machine access of an access is.** -/
theorem WellFormed.lowersToWidth (wf : g.WellFormed) (config : LoweringConfig)
    (hlive : g.liveNode? id = some node) (hlowerable : node.kind.isLowerable = true) {bits : Nat}
    (hwidth : (config.machineKind g.locations node.kind).width = some bits) :
    g.LowersToWidth config id bits := by
  obtain ⟨plan, g', hplan, hrun, spliced⟩ := run_lowerNode_of_liveNode? config wf hlive hlowerable
  obtain ⟨control, hmemory, hlisted, hraw⟩ := spliced.exists_access
  refine ⟨_, g', _, _, hrun, hmemory, hlisted, hraw, ?_⟩
  show plan.block.access.kind.width = some bits
  rw [LoweringConfig.kind_access_of_planOf hplan hlive, hwidth]

/-- A load or a store is as wide as the kind that its location declares. -/
theorem WellFormed.lowersToWidth_of_declared (wf : g.WellFormed) (config : LoweringConfig)
    (hlive : g.liveNode? id = some node) (hplain : (node.kind.isRead || node.kind.isWrite) = true)
    {location : LocationId} (hlocation : node.kind.location = some location) {kind : ValueKind}
    (hdeclared : g.locations.valueKind location = some kind) :
    g.LowersToWidth config id kind.bits := by
  have hkind : g.locations.accessKind location = kind := by
    rw [LocationUniverse.accessKind, hdeclared, Option.getD_some]
  cases hnode : node.kind with
  | read | write =>
      rw [hnode] at hlocation
      cases hlocation
      refine wf.lowersToWidth config hlive (by rw [hnode]; rfl) ?_
      rw [hnode, ← hkind]
      rfl
  | _ =>
      rw [hnode] at hplain
      cases hplain

/-- **How wide a swap is.**  In every graph that a run leads to, for every swap that is accepted at
a location with a declared kind, and for every configuration,

* the kind that is swapped and the declared one are the same on the operand stack;
* the machine swap is as wide as the kind that is swapped, while the machine loads and stores of the
  location are as wide as the declared one;
* these widths agree for all kinds that are accepted in the same request exactly if the declared
  kind does not widen to `int`. -/
theorem Reachable.swap_width_iff (h : g.Reachable) {k : Graph}
    (haccepted : (addCompareAndSwap swap).run g = .ok id k) {kind : ValueKind}
    (hdeclared : g.locations.valueKind swap.location = some kind) (config : LoweringConfig) :
    swap.valueKind.stackKind = kind.stackKind ∧
    k.LowersToWidth config id swap.valueKind.bits ∧
    (∀ x node, k.liveNode? x = some node → (node.kind.isRead || node.kind.isWrite) = true →
      node.kind.location = some swap.location → k.LowersToWidth config x kind.bits) ∧
    ((∀ other id' k', (addCompareAndSwap { swap with valueKind := other }).run g = .ok id' k' →
      other.bits = kind.bits) ↔ kind.stackKind ≠ .int) := by
  have hwf : k.WellFormed := (h.of_run_ok (.addCompareAndSwap swap) haccepted).wellFormed
  obtain ⟨hcheck, hfits, rfl, rfl⟩ := run_addCompareAndSwap_eq_ok_iff.mp haccepted
  have hstack := stackKind_eq_of_checkSwap hcheck hdeclared
  refine ⟨hstack.symm, ?_, ?_, ?_⟩
  · exact hwf.lowersToWidth config (g.liveNode?_insert _) rfl rfl
  · intro x node hlive hplain hlocation
    refine hwf.lowersToWidth_of_declared config hlive hplain hlocation ?_
    rw [locations_insert, hdeclared]
  · rw [← ValueKind.forall_bits_eq_iff]
    constructor
    · intro hbits other hother
      obtain ⟨k', haccepted'⟩ := accepts_swap_congr (hother.trans hstack) haccepted
      exact hbits other _ k' haccepted'
    · intro hbits other id' k' haccepted'
      obtain ⟨hcheck', -⟩ := run_addCompareAndSwap_eq_ok_iff.mp haccepted'
      exact hbits other (stackKind_eq_of_checkSwap hcheck' hdeclared).symm

/-- An object with a field of the kind `byte`, and two constants of the kind `int`. -/
def byteField : Graph :=
  (constInt 2 .int).after <|
  (constInt 1 .int).after <|
  (constInt 16 .long).after <|
  (parameter 0 (.object false)).after <|
  (internLocation (.field "Lock" "state" .byte false)).after new

theorem reachable_byteField : byteField.Reachable :=
  .edit (.edit (.edit (.edit (.edit (.refl new) (.internLocation _)) (.parameter _ _))
    (.constInt _ _)) (.constInt _ _)) (.constInt _ _)

/-- The swap of the two constants at the field, of some kind. -/
def swapState (kind : ValueKind) : SwapRequest where
  control := ⟨0⟩
  object := ⟨1⟩
  offset := ⟨2⟩
  expected := ⟨3⟩
  newValue := ⟨4⟩
  valueKind := kind
  location := ⟨2⟩

/-- The field accepts swaps of all kinds that widen to `int`. -/
theorem exists_accepted_swapState (kind : ValueKind) (hkind : kind.stackKind = .int) :
    ∃ id k, (addCompareAndSwap (swapState kind)).run byteField = .ok id k := by
  have hinputs : byteField.checkInputs ⟨5⟩ (swapNode (swapState .int)) = .ok () := rfl
  have hcheck : byteField.checkSwap (swapState .int) = .ok () := rfl
  have haccepted := run_addCompareAndSwap_eq_ok_iff.mpr
    ⟨hcheck, checkInputs_eq_ok_iff.mp hinputs, rfl, rfl⟩
  have hkind : kind.stackKind = (swapState .int).valueKind.stackKind := hkind
  obtain ⟨k, hk⟩ := accepts_swap_congr hkind haccepted
  exact ⟨_, k, hk⟩

/-- The swap of a `byte` at the field is a machine swap of eight bits. -/
theorem swap_width_byteField :
    byteField.Reachable ∧ byteField.locations.valueKind ⟨2⟩ = some .byte ∧
      ∃ id k, (addCompareAndSwap (swapState .byte)).run byteField = .ok id k ∧
        k.LowersToWidth .forTesting id 8 := by
  have hdeclared : byteField.locations.valueKind ⟨2⟩ = some .byte := rfl
  obtain ⟨id, k, haccepted⟩ := exists_accepted_swapState .byte rfl
  obtain ⟨-, hwidth, -, -⟩ :=
    Reachable.swap_width_iff reachable_byteField haccepted hdeclared .forTesting
  exact ⟨reachable_byteField, hdeclared, id, k, haccepted, hwidth⟩

/-- The field accepts the swap of an `int`, and it becomes a machine swap of 32 bits. -/
theorem swap_too_wide_byteField :
    byteField.Reachable ∧ byteField.locations.valueKind ⟨2⟩ = some .byte ∧
      ValueKind.byte.bits = 8 ∧
      ∃ id k, (addCompareAndSwap (swapState .int)).run byteField = .ok id k ∧
        k.LowersToWidth .forTesting id 32 := by
  obtain ⟨id, k, haccepted⟩ := exists_accepted_swapState .int rfl
  have hwf : k.WellFormed :=
    (reachable_byteField.of_run_ok (.addCompareAndSwap _) haccepted).wellFormed
  obtain ⟨-, -, hid, hinserted⟩ := run_addCompareAndSwap_eq_ok_iff.mp haccepted
  have hlive := byteField.liveNode?_insert (swapNode (swapState .int))
  rw [hid, hinserted] at hlive
  exact ⟨reachable_byteField, rfl, rfl, id, k, haccepted,
    hwf.lowersToWidth .forTesting hlive rfl rfl⟩

end Graph

end SeaOfNodes
