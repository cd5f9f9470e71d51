import Mathlib.Tactic.MkIffOfInductiveProp
import SeaOfNodes.Proofs.Access.Swaps
import SeaOfNodes.Proofs.Graph.Verify

/-!
# Reads and writes that are accepted

A read or a write is built in three steps: its operands are checked against the location; then the
inputs are checked against the layout of its slots; then it is inserted.  `Graph.AcceptsRead` and
`Graph.AcceptsWrite` are what a client has to know of a request, with every input looked at for
itself, and **`accesses_exact`** says that they are exactly what the steps ask for, and that the
graph gives back what was requested.

### What is load-bearing

Nothing compares the kind of the address with `offsetAddress`.  A node of that kind is the only one
that may be referred to as an address (`allows_address_iff`), so that the layout asks for it.  The
check of the address looks at the base only if there is one, and would accept an address without a
base for any location: in a well-formed graph what serves as an address has one
(`WellFormed.exists_base`).
-/

namespace SeaOfNodes

/-! ## What is requested, as it should be seen -/

namespace ReadRequest

/-- The read that is requested, as it should be seen at `id`. -/
def view (request : ReadRequest) (stamp : Stamp) (id : NodeId) : ReadView where
  id := id
  control := request.control
  address := request.address
  access := ⟨request.location, .none, request.nullCheck, request.order⟩
  guard := request.guard
  lastLocationAccess := request.lastLocationAccess
  stamp := stamp

/-- The load that it performs. -/
def memoryAccess (request : ReadRequest) (id : NodeId) : MemoryAccess where
  node := id
  direction := .load
  location := request.location
  order := request.order
  address := some request.address
  lastLocationAccess := request.lastLocationAccess

end ReadRequest

namespace WriteRequest

/-- The write that is requested, as it should be seen at `id`. -/
def view (request : WriteRequest) (id : NodeId) : WriteView where
  id := id
  control := request.control
  address := request.address
  value := request.value
  access := ⟨request.location, request.barrier, request.nullCheck, request.order⟩
  initialization := request.initialization
  guard := request.guard
  stateAfter := request.stateAfter
  lastLocationAccess := request.lastLocationAccess

/-- The store that it performs. -/
def memoryAccess (request : WriteRequest) (id : NodeId) : MemoryAccess where
  node := id
  direction := .store
  location := request.location
  order := request.order
  address := some request.address
  lastLocationAccess := request.lastLocationAccess

/-- The read of the same location, at the same address and under the same conditions. -/
def toRead (request : WriteRequest) : ReadRequest where
  control := request.control
  address := request.address
  location := request.location
  guard := request.guard
  lastLocationAccess := request.lastLocationAccess
  nullCheck := request.nullCheck
  order := request.order

end WriteRequest

/-- A stamp that is accepted fits the declared kind, and is that of a value if none is declared. -/
theorem LocationIdentity.accepts_iff {identity : LocationIdentity} {stamp : Stamp} :
    identity.accepts stamp = true ↔
      (∀ kind ∈ identity.valueKind, stamp.compatible (.onStack kind) = true) ∧
        (identity.valueKind = none → stamp.isValue = true) := by
  rw [accepts]
  cases identity.valueKind <;> simp

namespace Graph

variable {g g' : Graph} {id : NodeId}

/-! ## What is accepted -/

/-- Whether `id` is an attached base with an offset. -/
def isOffsetAddress (g : Graph) (id : NodeId) : Bool :=
  (g.node? id).any fun node => node.isAlive && decide (node.kind = .offsetAddress)

/-- **A request for a read is well-formed.** -/
@[mk_iff]
structure AcceptsRead (g : Graph) (request : ReadRequest) : Prop where
  /-- The location is known. -/
  known : (g.locations.get? request.location).isSome = true
  /-- The address is a base with an offset. -/
  address : g.isOffsetAddress request.address = true
  /-- It has the stamp of an address. -/
  addressStamp : g.stamp? request.address = some .address
  /-- A location inside an object is addressed from a reference. -/
  base : (g.locations.get? request.location).any LocationIdentity.isHeap = true →
    ((g.input request.address 0).bind g.stamp?).any Stamp.isObject = true
  /-- Control can go on from the predecessor. -/
  control : g.Serves request.control .control
  /-- The guard is one, if it is given. -/
  guard : ∀ guard ∈ request.guard, g.Serves guard .guard
  /-- The last access of the location touches memory, if it is given. -/
  lastLocationAccess : ∀ access ∈ request.lastLocationAccess, g.Serves access .memory

/-- **A request for a write is well-formed.**  It is as that of a read, and what is stored and the
frame state are looked at as well. -/
@[mk_iff]
structure AcceptsWrite (g : Graph) (request : WriteRequest) : Prop
    extends g.AcceptsRead request.toRead where
  /-- What is stored is a value. -/
  value : g.Serves request.value .value
  /-- It fits the kind that the location declares, if it declares one. -/
  valueFits : ∀ kind ∈ g.locations.valueKind request.location,
    g.holdsKind request.value kind = true
  /-- If it declares none, the stamp is one of data. -/
  valueIsData : g.locations.valueKind request.location = none →
    (g.stamp? request.value).any Stamp.isValue = true
  /-- The frame state is one, if it is given. -/
  stateAfter : ∀ state ∈ request.stateAfter, g.Serves state .state

instance {request : ReadRequest} : Decidable (g.AcceptsRead request) :=
  decidable_of_iff _ (acceptsRead_iff g request).symm

instance {request : WriteRequest} : Decidable (g.AcceptsWrite request) :=
  decidable_of_iff _ (acceptsWrite_iff g request).symm

/-! ## What the steps ask for -/

theorem serves_address_iff : g.Serves id .address ↔ g.isOffsetAddress id = true := by
  unfold Serves isOffsetAddress
  cases g.node? id <;> simp [allows_address_iff]

theorem slotsFit_readNode_iff {request : ReadRequest} :
    g.SlotsFit (g.readNode request) ↔
      g.Serves request.control .control ∧ g.Serves request.address .address ∧
        (∀ guard ∈ request.guard, g.Serves guard .guard) ∧
        ∀ access ∈ request.lastLocationAccess, g.Serves access .memory := by
  rw [readNode, slotsFit_withInputs_iff rfl]
  simp only [NodeKind.layout, List.forall₂_cons, List.forall₂_nil_left_iff, and_true]
  rw [fits_optional_iff .guard rfl, fits_optional_iff .lastLocationAccess rfl]
  rfl

theorem slotsFit_writeNode_iff {request : WriteRequest} :
    g.SlotsFit (writeNode request) ↔
      g.Serves request.control .control ∧ g.Serves request.address .address ∧
        g.Serves request.value .value ∧ (∀ guard ∈ request.guard, g.Serves guard .guard) ∧
        (∀ state ∈ request.stateAfter, g.Serves state .state) ∧
        ∀ access ∈ request.lastLocationAccess, g.Serves access .memory := by
  rw [writeNode, slotsFit_withInputs_iff rfl]
  simp only [NodeKind.layout, List.forall₂_cons, List.forall₂_nil_left_iff, and_true]
  rw [fits_optional_iff .guard rfl, fits_optional_iff .stateAfter rfl,
    fits_optional_iff .lastLocationAccess rfl]
  rfl

/-- **What is asked for of a read is that its request is well-formed.** -/
theorem WellFormed.acceptsRead_iff_checks (wf : g.WellFormed) {request : ReadRequest} :
    g.AcceptsRead request ↔
      g.checkAddress request.address request.location = .ok () ∧
        g.SlotsFit (g.readNode request) := by
  rw [slotsFit_readNode_iff]
  constructor
  · intro h
    have haddress := serves_address_iff.mpr h.address
    obtain ⟨identity, hidentity⟩ := Option.isSome_iff_exists.mp h.known
    refine ⟨(checkAddress_eq_ok_iff wf haddress).mpr ⟨h.addressStamp, identity, hidentity, ?_⟩,
      h.control, haddress, h.guard, h.lastLocationAccess⟩
    have hbase := h.base
    rwa [hidentity, Option.any_some, Option.any_eq_true] at hbase
  · rintro ⟨hcheck, hcontrol, haddress, hguard, haccess⟩
    obtain ⟨hstamp, identity, hidentity, hbase⟩ := (checkAddress_eq_ok_iff wf haddress).mp hcheck
    refine ⟨by rw [hidentity]; rfl, serves_address_iff.mp haddress, hstamp, ?_, hcontrol, hguard,
      haccess⟩
    rwa [hidentity, Option.any_some, Option.any_eq_true]

/-- What is asked for of the value is that it fits the declared kind, or is data if none is
declared. -/
theorem checkValue_iff_of_known {value : NodeId} {location : LocationId}
    (hknown : (g.locations.get? location).isSome = true) (hserves : g.Serves value .value) :
    g.checkValue value location = .ok () ↔
      (∀ kind ∈ g.locations.valueKind location, g.holdsKind value kind = true) ∧
        (g.locations.valueKind location = none → (g.stamp? value).any Stamp.isValue = true) := by
  obtain ⟨identity, hidentity⟩ := Option.isSome_iff_exists.mp hknown
  obtain ⟨node, hnode⟩ := hserves.exists_requireAlive
  simp only [checkValue_eq_ok_iff, LocationUniverse.valueKind, hidentity, hnode, Option.some.injEq,
    Except.ok.injEq, exists_and_left, exists_eq_left', Option.bind_some, Option.any_some,
    stamp?_of_requireAlive hnode, holdsKind_of_requireAlive hnode]
  exact LocationIdentity.accepts_iff

/-- **What is asked for of a write is that its request is well-formed.** -/
theorem WellFormed.acceptsWrite_iff_checks (wf : g.WellFormed) {request : WriteRequest} :
    g.AcceptsWrite request ↔
      g.checkAddress request.address request.location = .ok () ∧
        g.checkValue request.value request.location = .ok () ∧
        g.SlotsFit (writeNode request) := by
  rw [acceptsWrite_iff, wf.acceptsRead_iff_checks, slotsFit_readNode_iff, slotsFit_writeNode_iff]
  constructor
  · rintro ⟨⟨haddress, hcontrol, hserves, hguard, haccess⟩, hvalue, hfits, hdata, hstate⟩
    have hknown : (g.locations.get? request.location).isSome = true := by
      obtain ⟨-, identity, hidentity, -⟩ := (checkAddress_eq_ok_iff wf hserves).mp haddress
      exact Option.isSome_iff_exists.mpr ⟨identity, hidentity⟩
    exact ⟨haddress, (checkValue_iff_of_known hknown hvalue).mpr ⟨hfits, hdata⟩, hcontrol, hserves,
      hvalue, hguard, hstate, haccess⟩
  · rintro ⟨haddress, hcheck, hcontrol, hserves, hvalue, hguard, hstate, haccess⟩
    have hknown : (g.locations.get? request.location).isSome = true := by
      obtain ⟨identity, -, hidentity, -⟩ := checkValue_eq_ok_iff.mp hcheck
      exact Option.isSome_iff_exists.mpr ⟨identity, hidentity⟩
    obtain ⟨hfits, hdata⟩ := (checkValue_iff_of_known hknown hvalue).mp hcheck
    exact ⟨⟨haddress, hcontrol, hserves, hguard, haccess⟩, hvalue, hfits, hdata, hstate⟩

/-! ## What is built -/

/-- One node is new, at the next id, and all others are as they were. -/
structure Appends (g g' : Graph) (id : NodeId) : Prop where
  /-- The node stands at the next id. -/
  id_eq : id = g.nextId
  /-- There is one node more. -/
  size : g'.size = g.size + 1
  /-- What was there is as it was. -/
  others : ∀ x, x ≠ id → g'.node? x = g.node? x

theorem appends_insert (g : Graph) (node : Node) : g.Appends (g.insert node) g.nextId where
  id_eq := rfl
  size := size_insert g node
  others x hx := by rw [node?_insert, if_neg hx.symm]

/-- The node that is inserted is seen as the read that was requested. -/
theorem asRead_insert (g : Graph) (request : ReadRequest) :
    (g.insert (g.readNode request)).asRead g.nextId =
      some (request.view (.onStack (g.locations.accessKind request.location)) g.nextId) := by
  rw [asRead, liveNode?_insert]
  rfl

/-- The node that is inserted is seen as the write that was requested. -/
theorem asWrite_insert (g : Graph) (request : WriteRequest) :
    (g.insert (writeNode request)).asWrite g.nextId = some (request.view g.nextId) := by
  rw [asWrite, liveNode?_insert]
  rfl

/-- **Reads and writes are accepted exactly if they are well-formed, and are then as they were
requested.**  In every graph that a run leads to, a request succeeds if and only if it is
well-formed.  Then one node is new, at the next id, and all others are as they were; and

* the view of a read has all that was requested, and the stamp of the location's values on the
  operand stack; it loads, and kills no location;
* the view of a write has all that was requested; it stores, and kills its location. -/
theorem Reachable.accesses_exact (h : g.Reachable) :
    (∀ request : ReadRequest,
      ((∃ id g', (addRead request).run g = .ok id g') ↔ g.AcceptsRead request) ∧
      ∀ id g', (addRead request).run g = .ok id g' →
        g.Appends g' id ∧
        g'.asRead id =
          some (request.view (.onStack (g.locations.accessKind request.location)) id) ∧
        g'.memoryAccess? id = some (request.memoryAccess id) ∧ g'.checkpoint? id = none) ∧
    (∀ request : WriteRequest,
      ((∃ id g', (addWrite request).run g = .ok id g') ↔ g.AcceptsWrite request) ∧
      ∀ id g', (addWrite request).run g = .ok id g' →
        g.Appends g' id ∧ g'.asWrite id = some (request.view id) ∧
        g'.memoryAccess? id = some (request.memoryAccess id) ∧
        g'.checkpoint? id = some (.single request.location)) := by
  refine ⟨fun request => ⟨?_, fun id g' hrun => ?_⟩, fun request => ⟨?_, fun id g' hrun => ?_⟩⟩
  · simp only [run_addRead_eq_ok_iff, h.wellFormed.acceptsRead_iff_checks, exists_and_left,
      exists_eq', and_true]
  · obtain ⟨-, -, rfl, rfl⟩ := run_addRead_eq_ok_iff.mp hrun
    refine ⟨appends_insert g _, asRead_insert g request, ?_, ?_⟩
    · rw [memoryAccess?, node?_insert, if_pos rfl]
      rfl
    · rw [checkpoint?, node?_insert, if_pos rfl]
      rfl
  · simp only [run_addWrite_eq_ok_iff, h.wellFormed.acceptsWrite_iff_checks, exists_and_left,
      exists_eq', and_true]
  · obtain ⟨-, -, -, rfl, rfl⟩ := run_addWrite_eq_ok_iff.mp hrun
    refine ⟨appends_insert g _, asWrite_insert g request, ?_, ?_⟩
    · rw [memoryAccess?, node?_insert, if_pos rfl]
      rfl
    · rw [checkpoint?, node?_insert, if_pos rfl]
      rfl

/-- A store to the field of `lockState`, behind the load. -/
def lockStore : WriteRequest where
  control := ⟨6⟩
  address := ⟨3⟩
  location := ⟨2⟩
  value := ⟨4⟩
  lastLocationAccess := some ⟨5⟩
  order := .volatile

/-- A store to the field is built and seen as it was requested.  One of a value that is too wide
is not built, nor is a read at the base instead of the address. -/
theorem accesses_exact_lockState :
    lockState.Reachable ∧
      (∃ g', (addWrite lockStore).run lockState = .ok ⟨8⟩ g' ∧ g'.size = 9 ∧
        g'.asWrite ⟨8⟩ = some (lockStore.view ⟨8⟩) ∧
        g'.checkpoint? ⟨8⟩ = some (.single ⟨2⟩)) ∧
      (¬ ∃ id g', (addWrite { lockStore with value := ⟨2⟩ }).run lockState = .ok id g') ∧
      ¬ ∃ id g', (addRead { lockStore.toRead with address := ⟨1⟩ }).run lockState = .ok id g' := by
  have reachable : lockState.Reachable := .edit reachable_storeThenLoad (.internLocation _)
  obtain ⟨reads, writes⟩ := Reachable.accesses_exact reachable
  obtain ⟨hiff, hexact⟩ := writes lockStore
  obtain ⟨id, g', hrun⟩ := hiff.mpr (by decide +kernel)
  obtain ⟨appends, hview, -, hkills⟩ := hexact id g' hrun
  have hid : id = ⟨8⟩ := appends.id_eq.trans (by decide +kernel)
  have hsize : g'.size = 9 := appends.size.trans (by decide +kernel)
  subst hid
  refine ⟨reachable, ⟨g', hrun, hsize, hview, hkills⟩, fun accepted => ?_, fun accepted => ?_⟩
  · exact absurd ((writes _).1.mp accepted) (by decide +kernel)
  · exact absurd ((reads _).1.mp accepted) (by decide +kernel)

end Graph

end SeaOfNodes
