import Mathlib.Data.List.Forall2
import SeaOfNodes.Proofs.Graph.Change

/-!
# The types of accesses

An access is built for a location, and its operands are looked at once, when it is requested: the
address is one, and its base is a reference if the location is part of an object; what is stored
fits what the location is declared to hold; the operands of a swap fit each other and the kind that
is swapped.  `Graph.OperandsFit` is this rule for a node, and `Graph.AccessesFit` for all that is
attached.

The rule looks at a node's kind, at what is declared of its location, and at the stamps of a few
nodes that it holds: `Graph.operandStamps`.  Kinds and stamps do not change, and declarations of a
location agree on everything but its mutability (`LocationUniverse.Indexed.declares_intern`).  So
the rule can only be broken by an operand that takes the place of another one.
**`OperandsFit.transfer`** says that it is not broken when the stamps of the two are the same, or
are compatible.
-/

namespace SeaOfNodes

/-! ## Stamps that may take each other's place -/

namespace Stamp

variable {a b : Stamp}

theorem isObject_of_compatible (h : a.compatible b = true) : b.isObject = a.isObject := by
  cases a <;> cases b <;> first | rfl | cases h

theorem isValue_of_compatible (h : a.compatible b = true) : b.isValue = a.isValue := by
  cases a <;> cases b <;> first | rfl | cases h

theorem eq_address_of_compatible (h : address.compatible b = true) : b = address := by
  cases b <;> first | rfl | cases h

end Stamp

/-- Whether a result may take the place of another one: the stamps are the same or compatible, or
there is no result in either place. -/
inductive Like : Option Stamp → Option Stamp → Prop where
  | same (stamp : Option Stamp) : Like stamp stamp
  | compatible {a b : Stamp} (h : a.compatible b = true) : Like (some a) (some b)

namespace Like

variable {a b : Option Stamp} {s : Stamp}

theorem exists_compatible (h : Like (some s) b) :
    ∃ t, b = some t ∧ (t = s ∨ s.compatible t = true) := by
  cases h with
  | same => exact ⟨s, rfl, .inl rfl⟩
  | compatible h => exact ⟨_, rfl, .inr h⟩

theorem address (h : Like (some .address) b) : b = some .address := by
  obtain ⟨t, rfl, rfl | ht⟩ := h.exists_compatible
  · rfl
  · exact congrArg some (Stamp.eq_address_of_compatible ht)

theorem isObject (h : Like (some s) b) (hs : s.isObject = true) :
    ∃ t, b = some t ∧ t.isObject = true := by
  obtain ⟨t, rfl, rfl | ht⟩ := h.exists_compatible
  · exact ⟨t, rfl, hs⟩
  · exact ⟨t, rfl, (Stamp.isObject_of_compatible ht).trans hs⟩

/-- What is compatible with a stamp is compatible with all that take its place. -/
theorem compatible_left (h : Like (some s) b) {u : Stamp} (hs : s.compatible u = true) :
    ∃ t, b = some t ∧ t.compatible u = true := by
  obtain ⟨t, rfl, rfl | ht⟩ := h.exists_compatible
  · exact ⟨t, rfl, hs⟩
  · exact ⟨t, rfl, Stamp.compatible_trans (Stamp.compatible_comm s t ▸ ht) hs⟩

theorem accepts (h : Like (some s) b) {identity : LocationIdentity}
    (hs : identity.accepts s = true) : ∃ t, b = some t ∧ identity.accepts t = true := by
  unfold LocationIdentity.accepts at hs ⊢
  cases hkind : identity.valueKind with
  | some kind =>
      rw [hkind] at hs
      exact h.compatible_left hs
  | none =>
      rw [hkind] at hs
      obtain ⟨t, rfl, rfl | ht⟩ := h.exists_compatible
      · exact ⟨t, rfl, hs⟩
      · exact ⟨t, rfl, (Stamp.isValue_of_compatible ht).trans hs⟩

end Like

/-! ## Declarations of locations -/

/-- `u'` has the locations of `u`, and what they are declared to hold is the same. -/
def LocationUniverse.Declares (u u' : LocationUniverse) : Prop :=
  ∀ id identity, u.get? id = some identity →
    ∃ identity', u'.get? id = some identity' ∧ identity'.valueKind = identity.valueKind ∧
      identity'.isHeap = identity.isHeap

namespace LocationUniverse

theorem declares_refl (u : LocationUniverse) : u.Declares u := fun _ identity h =>
  ⟨identity, h, rfl, rfl⟩

theorem Declares.trans {u v w : LocationUniverse} (huv : u.Declares v) (hvw : v.Declares w) :
    u.Declares w := by
  intro id identity h
  obtain ⟨first, hfirst, hkind, hheap⟩ := huv id identity h
  obtain ⟨second, hsecond, hkind', hheap'⟩ := hvw id first hfirst
  exact ⟨second, hsecond, hkind'.trans hkind, hheap'.trans hheap⟩

/-- Of a location that is declared again nothing changes but its mutability. -/
theorem Indexed.declares_intern {u : LocationUniverse} (indexed : u.Indexed)
    (identity : LocationIdentity) : u.Declares (u.intern identity).2 := by
  intro id known hknown
  obtain ⟨known', hknown', hkey⟩ := indexed.get?_intern hknown identity
  refine ⟨known', hknown', ?_, ?_⟩
  · rw [← LocationIdentity.valueKind_asMutable known', hkey, LocationIdentity.valueKind_asMutable]
  · rw [← LocationIdentity.isHeap_asMutable known', hkey, LocationIdentity.isHeap_asMutable]

end LocationUniverse

namespace Graph

variable {g g' : Graph} {node node' : Node} {id : NodeId}

/-! ## The rule -/

/-- The stamp of a node, attached or not. -/
def stamp? (g : Graph) (id : NodeId) : Option Stamp := (g.node? id).map Node.stamp

/-- The stamp of what a slot of the node holds. -/
def slotStamp (g : Graph) (node : Node) (slot : Nat) : Option Stamp :=
  (node.input slot).bind g.stamp?

/-- The stamp of the base of the address that a read or write holds. -/
def baseStamp (g : Graph) (node : Node) : Option Stamp :=
  ((node.input 1).bind (g.input · 0)).bind g.stamp?

/-- The address has the stamp of one, and a location inside an object is addressed from a
reference. -/
def AddressFits (g : Graph) (node : Node) (location : LocationId) : Prop :=
  g.slotStamp node 1 = some .address ∧
    ∃ identity, g.locations.get? location = some identity ∧
      (identity.isHeap = true → ∃ stamp, g.baseStamp node = some stamp ∧ stamp.isObject = true)

/-- The stored value fits what the location is declared to hold, or is a data value if nothing is
declared. -/
def ValueFits (g : Graph) (node : Node) (location : LocationId) : Prop :=
  ∃ identity stamp, g.locations.get? location = some identity ∧
    g.slotStamp node 2 = some stamp ∧ identity.accepts stamp = true

/-- The expected and the new value fit each other and the kind that is swapped. -/
def SwapFits (g : Graph) (node : Node) (kind : ValueKind) : Prop :=
  ∃ expected newValue, g.slotStamp node 3 = some expected ∧ g.slotStamp node 4 = some newValue ∧
    expected.compatible newValue = true ∧ expected.compatible (.onStack kind) = true ∧
    newValue.compatible (.onStack kind) = true

/-- **The operands of a node fit its location**, if it is an access. -/
def OperandsFit (g : Graph) (node : Node) : Prop :=
  match node.kind with
  | .read access => g.AddressFits node access.location
  | .write access _ => g.AddressFits node access.location ∧ g.ValueFits node access.location
  | .compareAndSwap kind _ => g.SwapFits node kind
  | _ => True

/-- **The operands of every attached access fit its location.** -/
def AccessesFit (g : Graph) : Prop :=
  ∀ id node, g.node? id = some node → node.isAlive = true → g.OperandsFit node

theorem operandsFit_of_not_lowerable (h : node.kind.isLowerable = false) : g.OperandsFit node := by
  unfold OperandsFit
  cases hkind : node.kind with
  | read | write | compareAndSwap =>
      rw [hkind] at h
      cases h
  | _ => trivial

/-! The rule can be evaluated. -/

theorem addressFits_iff {location : LocationId} :
    g.AddressFits node location ↔
      g.slotStamp node 1 = some .address ∧ (g.locations.get? location).any fun identity =>
        !identity.isHeap || (g.baseStamp node).any Stamp.isObject := by
  simp only [AddressFits, Option.any_eq_true, Bool.or_eq_true, Bool.not_eq_true',
    ← Bool.not_eq_true, imp_iff_not_or]

theorem valueFits_iff {location : LocationId} :
    g.ValueFits node location ↔
      (g.locations.get? location).any fun identity =>
        (g.slotStamp node 2).any identity.accepts := by
  simp only [ValueFits, Option.any_eq_true, exists_and_left]

theorem swapFits_iff {kind : ValueKind} :
    g.SwapFits node kind ↔ (g.slotStamp node 3).any fun expected =>
      (g.slotStamp node 4).any fun newValue => expected.compatible newValue &&
        expected.compatible (.onStack kind) && newValue.compatible (.onStack kind) := by
  simp only [SwapFits, Option.any_eq_true, Bool.and_eq_true, exists_and_left, and_assoc]

instance (location : LocationId) : Decidable (g.AddressFits node location) :=
  decidable_of_iff _ addressFits_iff.symm

instance (location : LocationId) : Decidable (g.ValueFits node location) :=
  decidable_of_iff _ valueFits_iff.symm

instance (kind : ValueKind) : Decidable (g.SwapFits node kind) :=
  decidable_of_iff _ swapFits_iff.symm

instance : Decidable (g.OperandsFit node) :=
  match hkind : node.kind with
  | .read access =>
    decidable_of_iff (g.AddressFits node access.location) (by rw [OperandsFit, hkind])
  | .write access _ =>
    decidable_of_iff (g.AddressFits node access.location ∧ g.ValueFits node access.location)
      (by rw [OperandsFit, hkind])
  | .compareAndSwap kind _ => decidable_of_iff (g.SwapFits node kind) (by rw [OperandsFit, hkind])
  | .start | .parameter _ | .constInt _ | .constNull | .newInstance _ | .offsetAddress
  | .frameState _ | .nullCheckGuard | .nullCheck | .rawLoad _ | .rawStore _ | .atomicCas ..
  | .memoryBarrier _ | .writeBarrier _ | .ret =>
    .isTrue (operandsFit_of_not_lowerable (by rw [hkind]; rfl))

theorem accessesFit_iff :
    g.AccessesFit ↔
      ∀ id ∈ g.ids, ∀ node ∈ g.node? id, node.isAlive = true → g.OperandsFit node := by
  constructor
  · exact fun fits id _ node hnode => fits id node hnode
  · exact fun fits id node hnode =>
      fits id ((g.nodes.mem_ids id).mpr (lt_size_of_node? hnode)) node hnode

instance : Decidable g.AccessesFit := decidable_of_iff _ accessesFit_iff.symm

/-! ## What the rule depends on -/

/-- The stamps that the rule looks at. -/
def operandStamps (g : Graph) (node : Node) : List (Option Stamp) :=
  match node.kind with
  | .read _ => [g.slotStamp node 1, g.baseStamp node]
  | .write .. => [g.slotStamp node 1, g.baseStamp node, g.slotStamp node 2]
  | .compareAndSwap .. => [g.slotStamp node 3, g.slotStamp node 4]
  | _ => []

theorem AddressFits.transfer {location : LocationId} (h : g.AddressFits node location)
    (hlocations : g.locations.Declares g'.locations)
    (haddress : Like (g.slotStamp node 1) (g'.slotStamp node' 1))
    (hbase : Like (g.baseStamp node) (g'.baseStamp node')) : g'.AddressFits node' location := by
  obtain ⟨hstamp, identity, hidentity, hheap⟩ := h
  rw [hstamp] at haddress
  obtain ⟨identity', hidentity', -, hsame⟩ := hlocations _ _ hidentity
  refine ⟨haddress.address, identity', hidentity', fun hin => ?_⟩
  obtain ⟨stamp, hstamp, hobject⟩ := hheap (hsame ▸ hin)
  rw [hstamp] at hbase
  exact hbase.isObject hobject

theorem ValueFits.transfer {location : LocationId} (h : g.ValueFits node location)
    (hlocations : g.locations.Declares g'.locations)
    (hvalue : Like (g.slotStamp node 2) (g'.slotStamp node' 2)) : g'.ValueFits node' location := by
  obtain ⟨identity, stamp, hidentity, hstamp, haccepts⟩ := h
  rw [hstamp] at hvalue
  obtain ⟨identity', hidentity', hkind, -⟩ := hlocations _ _ hidentity
  have haccepts' : identity'.accepts stamp = true := by
    unfold LocationIdentity.accepts at haccepts ⊢
    rw [hkind]
    exact haccepts
  obtain ⟨stamp', hstamp', h⟩ := hvalue.accepts haccepts'
  exact ⟨identity', stamp', hidentity', hstamp', h⟩

theorem SwapFits.transfer {kind : ValueKind} (h : g.SwapFits node kind)
    (hexpected : Like (g.slotStamp node 3) (g'.slotStamp node' 3))
    (hnewValue : Like (g.slotStamp node 4) (g'.slotStamp node' 4)) : g'.SwapFits node' kind := by
  obtain ⟨expected, newValue, hstamp, hstamp', -, hkind, hkind'⟩ := h
  rw [hstamp] at hexpected
  rw [hstamp'] at hnewValue
  obtain ⟨expected', he, hfits⟩ := hexpected.compatible_left hkind
  obtain ⟨newValue', hn, hfits'⟩ := hnewValue.compatible_left hkind'
  -- both fit the kind, and so they fit each other
  refine ⟨expected', newValue', he, hn, ?_, hfits, hfits'⟩
  rw [Stamp.compatible_comm newValue'] at hfits'
  exact Stamp.compatible_trans hfits hfits'

/-- **The frame of the rule.**  Operands fit as long as other ones take their place only if their
stamps are the same or compatible. -/
theorem OperandsFit.transfer (h : g.OperandsFit node) (hkind : node'.kind = node.kind)
    (hlocations : g.locations.Declares g'.locations)
    (hlike : List.Forall₂ Like (g.operandStamps node) (g'.operandStamps node')) :
    g'.OperandsFit node' := by
  unfold OperandsFit at h ⊢
  unfold operandStamps at hlike
  rw [hkind] at hlike ⊢
  cases hnode : node.kind with
  | read access =>
      rw [hnode] at h hlike
      simp only [List.forall₂_cons] at hlike
      exact h.transfer hlocations hlike.1 hlike.2.1
  | write access initialization =>
      rw [hnode] at h hlike
      simp only [List.forall₂_cons] at hlike
      obtain ⟨haddress, hbase, hvalue, -⟩ := hlike
      exact ⟨h.1.transfer hlocations haddress hbase, h.2.transfer hlocations hvalue⟩
  | compareAndSwap kind location =>
      rw [hnode] at h hlike
      simp only [List.forall₂_cons] at hlike
      exact h.transfer hlike.1 hlike.2.1
  | _ => trivial

/-! ## What is requested fits -/

theorem requireLocation_eq_ok_iff {location : LocationId} {identity : LocationIdentity} :
    g.requireLocation id location = .ok identity ↔ g.locations.get? location = some identity := by
  unfold requireLocation
  cases g.locations.get? location <;> simp

/-- What a slot of the layout is filled with serves in its role, in a node whose slots fit. -/
theorem SlotsFit.serves (hfit : g.SlotsFit node) (slot : Nat) (info : SlotInfo) {d : NodeId}
    (hinput : node.input slot = some d) (hinfo : node.kind.layout[slot]? = some info) :
    g.Serves d info.inputType := by
  obtain ⟨found, hfound, hfits⟩ := hfit slot (lt_length_of_input hinput)
  rw [Node.slotInfo_of_layout hinfo] at hfound
  cases hfound
  rwa [hinput] at hfits

theorem stamp?_of_requireAlive {d : NodeId} {found : Node} (h : g.requireAlive d = .ok found) :
    g.stamp? d = some found.stamp := by
  rw [stamp?, (requireAlive_eq_ok_iff.mp h).1, Option.map_some]

theorem Serves.exists_requireAlive {type : InputType} (h : g.Serves id type) :
    ∃ node, g.requireAlive id = .ok node := by
  obtain ⟨node, hnode, halive, -⟩ := h
  exact ⟨node, requireAlive_eq_ok_iff.mpr ⟨hnode, halive⟩⟩

theorem checkBase_of_requireAlive (h : g.requireAlive id = .ok node)
    {identity : LocationIdentity} :
    g.checkBase id identity = .ok () ↔ (identity.isHeap = true → node.stamp.isObject = true) := by
  simp only [checkBase, h, bind_eq_ok_iff, Except.ok.injEq, exists_eq_left', refused_eq_ok_iff,
    pure_eq_ok_iff, and_true]
  cases identity.isHeap <;> simp

/-- What the check of an address asks for.  What serves as an address has a base, so that the base
is always looked at. -/
theorem checkAddress_eq_ok_iff (wf : g.WellFormed) {address : NodeId} {location : LocationId}
    (hserves : g.Serves address .address) :
    g.checkAddress address location = .ok () ↔
      g.stamp? address = some .address ∧ ∃ identity, g.locations.get? location = some identity ∧
        (identity.isHeap = true →
          ∃ stamp, (g.input address 0).bind g.stamp? = some stamp ∧ stamp.isObject = true) := by
  obtain ⟨base, hbase, hservesBase⟩ := wf.exists_base hserves
  obtain ⟨object, hobject⟩ := hservesBase.exists_requireAlive
  obtain ⟨found, hfound, halive, hallows⟩ := hserves
  have hkind : found.kind = .offsetAddress := allows_address_iff.mp hallows
  have hslot : found.input 0 = some base := by simpa [input, hfound] using hbase
  have hattached : g.requireAlive address = .ok found := requireAlive_eq_ok_iff.mpr ⟨hfound, halive⟩
  simp only [checkAddress, bind_eq_ok_iff, requireLocation_eq_ok_iff, hattached, Except.ok.injEq,
    exists_eq_left', refused_eq_ok_iff, hkind, hslot, checkBase_of_requireAlive hobject, hbase,
    Option.bind_some, stamp?_of_requireAlive hobject, stamp?_of_requireAlive hattached,
    Option.some.injEq, ne_eq, not_not]
  constructor
  · rintro ⟨identity, hidentity, hstamp, hheap⟩
    exact ⟨hstamp, identity, hidentity, hheap⟩
  · rintro ⟨hstamp, identity, hidentity, hheap⟩
    exact ⟨identity, hidentity, hstamp, hheap⟩

/-- An address that was checked fits. -/
theorem addressFits_of_check (wf : g.WellFormed) {address : NodeId} {location : LocationId}
    (hcheck : g.checkAddress address location = .ok ()) (hserves : g.Serves address .address)
    (hinput : node.input 1 = some address) : g.AddressFits node location := by
  rw [AddressFits, slotStamp, baseStamp, hinput, Option.bind_some, Option.bind_some]
  exact (checkAddress_eq_ok_iff wf hserves).mp hcheck

/-- What the check of a value asks for. -/
theorem checkValue_eq_ok_iff {value : NodeId} {location : LocationId} :
    g.checkValue value location = .ok () ↔
      ∃ identity found, g.locations.get? location = some identity ∧
        g.requireAlive value = .ok found ∧ identity.accepts found.stamp = true := by
  simp only [checkValue, bind_eq_ok_iff, guarded_eq_ok_iff, requireLocation_eq_ok_iff,
    pure_eq_ok_iff, and_true, exists_and_left]

/-- A value that was checked fits. -/
theorem valueFits_of_check {value : NodeId} {location : LocationId}
    (hcheck : g.checkValue value location = .ok ()) (hinput : node.input 2 = some value) :
    g.ValueFits node location := by
  obtain ⟨identity, found, hidentity, hfound, haccepts⟩ := checkValue_eq_ok_iff.mp hcheck
  refine ⟨identity, found.stamp, hidentity, ?_, haccepts⟩
  rw [slotStamp, hinput, Option.bind_some, stamp?_of_requireAlive hfound]

/-- What the check of a swap asks for. -/
theorem checkSwap_eq_ok_iff {request : SwapRequest} :
    g.checkSwap request = .ok () ↔
      ∃ expected newValue identity offset,
        g.requireAlive request.expected = .ok expected ∧
        g.requireAlive request.newValue = .ok newValue ∧
        expected.stamp.compatible newValue.stamp = true ∧
        expected.stamp.compatible (.onStack request.valueKind) = true ∧
        g.locations.get? request.location = some identity ∧
        (∀ kind, identity.valueKind = some kind →
          (Stamp.onStack kind).compatible (.onStack request.valueKind) = true) ∧
        g.checkBase request.object identity = .ok () ∧
        g.requireAlive request.offset = .ok offset ∧ offset.stamp.isInteger = true := by
  simp only [checkSwap, bind_eq_ok_iff, throw_bind_eq, refused_eq_ok_iff, exists_unit_iff,
    requireLocation_eq_ok_iff, Option.any_eq_true, not_exists, not_and, Bool.not_eq_true,
    Bool.not_eq_false']
  constructor
  · rintro ⟨expected, hexpected, newValue, hnewValue, heach, hkind, identity, hidentity, hdeclared,
      hbase, offset, hoffset, hinteger, -⟩
    exact ⟨expected, newValue, identity, offset, hexpected, hnewValue, heach, hkind, hidentity,
      hdeclared, hbase, hoffset, hinteger⟩
  · rintro ⟨expected, newValue, identity, offset, hexpected, hnewValue, heach, hkind, hidentity,
      hdeclared, hbase, hoffset, hinteger⟩
    exact ⟨expected, hexpected, newValue, hnewValue, heach, hkind, identity, hidentity, hdeclared,
      hbase, offset, hoffset, hinteger, rfl⟩

/-- The operands of a swap that was checked fit. -/
theorem swapFits_of_check {request : SwapRequest} (hcheck : g.checkSwap request = .ok ()) :
    g.SwapFits (swapNode request) request.valueKind := by
  obtain ⟨expected, newValue, -, -, hexpected, hnewValue, heach, hkind, -⟩ :=
    checkSwap_eq_ok_iff.mp hcheck
  have hswapped : newValue.stamp.compatible (.onStack request.valueKind) = true := by
    rw [Stamp.compatible_comm] at heach
    exact Stamp.compatible_trans heach hkind
  exact ⟨_, _, stamp?_of_requireAlive hexpected, stamp?_of_requireAlive hnewValue, heach, hkind,
    hswapped⟩

/-- **What enters a graph fits.** -/
theorem Enters.operandsFit {admits : Node → Prop} (enters : Enters admits g node)
    (plain : ∀ node, admits node → node.kind.isLowerable = false) (wf : g.WellFormed)
    (hfit : g.SlotsFit node) : g.OperandsFit node := by
  cases enters with
  | given admitted => exact operandsFit_of_not_lowerable (plain node admitted)
  | plain built kind => exact operandsFit_of_not_lowerable kind
  | read address => exact addressFits_of_check wf address (hfit.serves 1 .address rfl rfl) rfl
  | write address value =>
      exact ⟨addressFits_of_check wf address (hfit.serves 1 .address rfl rfl) rfl,
        valueFits_of_check value rfl⟩
  | swap operands => exact swapFits_of_check operands

end Graph

end SeaOfNodes
