import SeaOfNodes.Proofs.Location.Interned
import SeaOfNodes.Proofs.Memory.OrderLaws

/-!
# The locations of one field

A field is declared by its holder, its name and the kind of value that it holds, and all three are
part of what makes a location the same; only mutability is not.  So declarations of one field, by
holder and name, are answered one id exactly if they agree on the kind.

**`field_location_iff`** follows this up to the accesses of a graph.  To the oracle of identities
two locations of one field are disjoint as soon as they were declared with different kinds, and then
nothing but a witness or a volatile access keeps the order of the accesses to the field.

### What is load-bearing

A node touches one location at most (`footprint_eq_of_mem`): what kills a location and accesses one
kills the one that it accesses.  So the oracle is asked one question, and its answer decides.
-/

namespace SeaOfNodes

namespace LocationUniverse.Interned

variable {u : LocationUniverse} {a b : LocationId} {holder name : String} {kind kind' : ValueKind}
  {immutable immutable' : Bool}

/-- Two locations of one field are one location exactly if they hold values of one kind. -/
theorem field_id_eq_iff (h : u.Interned) (ha : u.get? a = some (.field holder name kind immutable))
    (hb : u.get? b = some (.field holder name kind' immutable')) : a = b ↔ kind = kind' := by
  constructor
  · rintro rfl
    cases ha.symm.trans hb
    rfl
  · rintro rfl
    exact h.indexed.eq_of_asMutable ha hb rfl

/-- What the oracle of identities answers about two locations of one field. -/
theorem relation_field (h : u.Interned) (ha : u.get? a = some (.field holder name kind immutable))
    (hb : u.get? b = some (.field holder name kind' immutable')) :
    AliasOracle.identity.relation u a b = if kind = kind' then .same else .disjoint := by
  simp only [AliasOracle.identity, ha, hb, LocationIdentity.isAny, Bool.or_self,
    Bool.false_eq_true, if_false, h.field_id_eq_iff ha hb]

end LocationUniverse.Interned

/-- What was declared as a field is one, of the kind that was declared. -/
theorem Ledger.Consistent.get?_field {ledger : Ledger} (c : ledger.Consistent) {e : Declared}
    (he : e ∈ ledger.entries) {holder name : String} {kind : ValueKind} {immutable : Bool}
    (hfield : e.identity = .field holder name kind immutable) :
    ∃ immutable', ledger.locations.get? e.id = some (.field holder name kind immutable') := by
  obtain ⟨known, hknown, hkey⟩ := c.denotes e he
  rw [hfield] at hkey
  cases known with
  | field holder' name' kind' immutable' =>
      cases hkey
      exact ⟨immutable', hknown⟩
  | _ => cases hkey

/-- What kills a location and accesses one kills the one that it accesses. -/
theorem NodeKind.location_of_kills {kind : NodeKind} {killed location : LocationId}
    {direction : AccessDirection} {order : MemoryOrder} (hkills : kind.kills = some killed)
    (haccesses : kind.accesses = some (direction, location, order)) : location = killed := by
  cases kind <;> cases hkills <;> cases haccesses <;> rfl

namespace Graph

variable {g : Graph} {a b id : NodeId} {node : Node} {location : LocationId} {holder name : String}
  {kind kind' : ValueKind}

/-- The node kills or accesses a location of the field that holds values of `kind`. -/
def TouchesField (g : Graph) (id : NodeId) (holder name : String) (kind : ValueKind) : Prop :=
  ∃ location immutable, location ∈ g.footprint id ∧
    g.locations.get? location = some (.field holder name kind immutable)

/-- What a node touches is the location that it kills, or else the one that it accesses. -/
theorem footprint_of_node? (hnode : g.node? id = some node) :
    g.footprint id =
      (node.kind.kills.or (node.kind.accesses.map fun (_, location, _) => location)).toList := by
  unfold footprint
  rw [checkpoint?_of_node? hnode, memoryAccess?_of_node? hnode]
  cases hkills : node.kind.kills with
  | none =>
      rcases node.kind.accesses with _ | ⟨direction, accessed, order⟩
      · rfl
      · rfl
  | some killed =>
      rcases haccesses : node.kind.accesses with _ | ⟨direction, accessed, order⟩
      · rfl
      · cases NodeKind.location_of_kills hkills haccesses
        exact if_pos (List.mem_singleton_self _)

/-- A node touches one location at most. -/
theorem footprint_eq_of_mem (h : location ∈ g.footprint id) : g.footprint id = [location] := by
  cases hnode : g.node? id with
  | none => simp [footprint, checkpoint?, memoryAccess?, hnode] at h
  | some node =>
      rw [footprint_of_node? hnode] at h ⊢
      rw [Option.mem_toList] at h
      rw [h, Option.toList_some]

/-- Nodes that touch one location each are told apart exactly if the oracle tells these apart. -/
theorem footprintsDisjoint_of_mem {other : LocationId} {oracle : AliasOracle}
    (ha : location ∈ g.footprint a) (hb : other ∈ g.footprint b) :
    g.footprintsDisjoint a b oracle = oracle.canReorder g.locations location other := by
  simp [footprintsDisjoint, footprint_eq_of_mem ha, footprint_eq_of_mem hb]

theorem TouchesField.touches (h : g.TouchesField id holder name kind)
    (halive : g.isAlive id = true) : g.Touches id := by
  obtain ⟨location, -, hmem, -⟩ := h
  refine Classical.byContradiction fun hnot => ?_
  have hempty := (footprint_isEmpty_iff halive).mpr hnot
  rw [footprint_eq_of_mem hmem] at hempty
  cases hempty

/-- The oracle of identities tells nodes that touch one field apart exactly if the kinds differ. -/
theorem TouchesField.footprintsDisjoint_iff (interned : g.locations.Interned)
    (ha : g.TouchesField a holder name kind) (hb : g.TouchesField b holder name kind') :
    g.footprintsDisjoint a b .identity = true ↔ kind ≠ kind' := by
  obtain ⟨left, immutable, hleft, hgetLeft⟩ := ha
  obtain ⟨right, immutable', hright, hgetRight⟩ := hb
  rw [footprintsDisjoint_of_mem hleft hright]
  show (AliasOracle.identity.relation g.locations left right).permitsReorder = true ↔ _
  rw [interned.relation_field hgetLeft hgetRight]
  split
  · next hkind => simp [hkind, AliasRelation.permitsReorder]
  · next hkind => simp [hkind, AliasRelation.permitsReorder]

/-- When the oracle of identities lets two nodes that touch one field exchange their order. -/
theorem TouchesField.canReorder_iff (interned : g.locations.Interned) (hne : a ≠ b)
    (ha : g.isAlive a = true) (hb : g.isAlive b = true)
    (hfieldA : g.TouchesField a holder name kind) (hfieldB : g.TouchesField b holder name kind') :
    g.canReorder a b .identity = .ok true ↔ kind ≠ kind' ∧ g.witnesses a b = false ∧
      g.witnesses b a = false ∧ g.isVolatile a = false ∧ g.isVolatile b = false := by
  rw [canReorder_eq_ok_true_iff ha hb, canReorder_eq_ok_false_iff ha hb hne,
    ← hfieldA.footprintsDisjoint_iff interned hfieldB]
  simp only [hfieldA.touches ha, hfieldB.touches hb, true_and]
  cases g.witnesses a b <;> cases g.witnesses b a <;> cases g.isVolatile a <;>
    cases g.isVolatile b <;> simp

/-- **The locations of one field**, named by its holder and its name.

* In every run of calls, two declarations of the field are answered one id exactly if they declare
  values of one kind, whatever their mutability; and the oracle of identities answers that the two
  ids are disjoint exactly if the kinds differ.
* In every graph that a run leads to, the oracle of identities lets two attached nodes that touch
  the field exchange their order exactly if they touch locations of different kinds, neither names
  the other as the last access, and none of them is volatile. -/
theorem field_location_iff (holder name : String) (kind kind' : ValueKind) :
    (∀ calls, ∀ e ∈ (Ledger.ofCalls calls).entries, ∀ f ∈ (Ledger.ofCalls calls).entries,
      ∀ immutable immutable', e.identity = .field holder name kind immutable →
        f.identity = .field holder name kind' immutable' →
        (e.id = f.id ↔ kind = kind') ∧
        (AliasOracle.identity.relation (Ledger.ofCalls calls).locations e.id f.id = .disjoint ↔
          kind ≠ kind')) ∧
    ∀ admits g a b, Reaches admits new g → a ≠ b → g.isAlive a = true → g.isAlive b = true →
      g.TouchesField a holder name kind → g.TouchesField b holder name kind' →
      (g.canReorder a b .identity = .ok true ↔ kind ≠ kind' ∧ g.witnesses a b = false ∧
        g.witnesses b a = false ∧ g.isVolatile a = false ∧ g.isVolatile b = false) := by
  constructor
  · intro calls e he f hf immutable immutable' hfieldE hfieldF
    have c := Ledger.consistent_ofCalls calls
    have interned : (Ledger.ofCalls calls).locations.Interned := ⟨calls, rfl⟩
    obtain ⟨knownE, hknownE⟩ := c.get?_field he hfieldE
    obtain ⟨knownF, hknownF⟩ := c.get?_field hf hfieldF
    refine ⟨interned.field_id_eq_iff hknownE hknownF, ?_⟩
    rw [interned.relation_field hknownE hknownF]
    split
    · next hkind => simp [hkind]
    · next hkind => simp [hkind]
  · intro admits g a b reached hne ha hb hfieldA hfieldB
    exact hfieldA.canReorder_iff reached.interned hne ha hb hfieldB

/-- Stores to a field of bytes that is once declared final, and once not. -/
def stateStores : Graph :=
  twoStores (.field "Lock" "state" .byte true) (.field "Lock" "state" .byte false)

/-- The declarations are those of one location, and the stores keep their order. -/
theorem field_location_stateStores :
    (Ledger.ofCalls [.finalField "Lock" "state" .byte, .field "Lock" "state" .byte]).entries =
      Ledger.new.entries ++ [⟨.field "Lock" "state" .byte true, ⟨2⟩⟩,
        ⟨.field "Lock" "state" .byte false, ⟨2⟩⟩] ∧
      AliasOracle.identity.relation (Ledger.ofCalls
        [.finalField "Lock" "state" .byte, .field "Lock" "state" .byte]).locations ⟨2⟩ ⟨2⟩ ≠
          .disjoint ∧
      ¬ stateStores.canReorder ⟨5⟩ ⟨6⟩ .identity = .ok true := by
  have hentries : (Ledger.ofCalls
      [.finalField "Lock" "state" .byte, .field "Lock" "state" .byte]).entries =
      Ledger.new.entries ++ [⟨.field "Lock" "state" .byte true, ⟨2⟩⟩,
        ⟨.field "Lock" "state" .byte false, ⟨2⟩⟩] := rfl
  obtain ⟨ledgers, graphs⟩ := field_location_iff "Lock" "state" .byte .byte
  refine ⟨hentries, fun hdisjoint => ?_, fun hreorder => ?_⟩
  · have hanswers := ledgers _ ⟨.field "Lock" "state" .byte true, ⟨2⟩⟩ (by rw [hentries]; decide)
      ⟨.field "Lock" "state" .byte false, ⟨2⟩⟩ (by rw [hentries]; decide) true false rfl rfl
    exact hanswers.2.mp hdisjoint rfl
  · have hkinds := graphs _ stateStores ⟨5⟩ ⟨6⟩ (reachable_twoStores _ _) (by decide) rfl rfl
      ⟨⟨2⟩, false, List.mem_cons_self, rfl⟩ ⟨⟨2⟩, false, List.mem_cons_self, rfl⟩
    exact (hkinds.mp hreorder).1 rfl

/-- Declared once with bytes and once with ints, the field is two locations, which the oracle of
identities takes to be disjoint, and stores to the one and the other may exchange their order. -/
theorem field_split_by_kind :
    (Ledger.ofCalls [.field "Lock" "state" .byte, .field "Lock" "state" .int]).entries =
      Ledger.new.entries ++ [⟨.field "Lock" "state" .byte false, ⟨2⟩⟩,
        ⟨.field "Lock" "state" .int false, ⟨3⟩⟩] ∧
    AliasOracle.identity.relation (Ledger.ofCalls
      [.field "Lock" "state" .byte, .field "Lock" "state" .int]).locations ⟨2⟩ ⟨3⟩ = .disjoint ∧
    ∃ g : Graph, g.Reachable ∧ g.TouchesField ⟨5⟩ "Lock" "state" .byte ∧
      g.TouchesField ⟨6⟩ "Lock" "state" .int ∧ g.canReorder ⟨5⟩ ⟨6⟩ .identity = .ok true :=
  ⟨rfl, rfl, twoStores (.field "Lock" "state" .byte false) (.field "Lock" "state" .int false),
    reachable_twoStores _ _, ⟨⟨2⟩, false, List.mem_cons_self, rfl⟩,
    ⟨⟨3⟩, false, List.mem_cons_self, rfl⟩, rfl⟩

end Graph

end SeaOfNodes
