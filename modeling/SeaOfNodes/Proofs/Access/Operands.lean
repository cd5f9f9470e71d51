import SeaOfNodes.Proofs.Access.Typing
import SeaOfNodes.Proofs.Lowering.Growth

/-!
# Which edits exchange operands

The edits that can put another node into the place of a stored value, of an address, of the base of
an address or of an operand of a swap are four: `setInput`, `replaceInput`, `replaceAtUsages` and
`replaceAtUsagesOfType`.  They look at the role of the edge and not at stamps; `Graph.KeepsTypes`
says of two graphs that it was a node of the same or a compatible stamp each time.

All other edits leave the operands alone.  They may change much else of a node that is attached, its
marks, its optional edges and its further values, but not its data: what it holds in the slots of
its layout that carry a value or an address (`Graph.Steady`).  **`Operation.keepsTypes`** puts the
two together.
-/

namespace SeaOfNodes

/-- Whether an edge of this role carries data. -/
def InputType.isData : InputType → Bool
  | .value | .address => true
  | _ => false

/-- The nodes are of one kind, and hold the same data in the slots of its layout. -/
structure Node.SameData (node node' : Node) : Prop where
  /-- They are of one kind. -/
  kind : node'.kind = node.kind
  /-- They hold the same data. -/
  input : ∀ slot info, node.kind.layout[slot]? = some info → info.inputType.isData = true →
    node'.input slot = node.input slot

theorem Node.sameData_refl (node : Node) : node.SameData node := ⟨rfl, fun _ _ _ _ => rfl⟩

namespace Graph

variable {α : Type} {admits : Node → Prop} {m : Edit α} {g g' : Graph} {node node' : Node}
  {id : NodeId}

/-- **No access holds an operand that differs in type from the one before it.** -/
def KeepsTypes (g g' : Graph) : Prop :=
  ∀ id node node', g.node? id = some node → node.isAlive = true → g'.node? id = some node' →
    node'.isAlive = true → List.Forall₂ Like (g.operandStamps node) (g'.operandStamps node')

theorem keepsTypes_refl (g : Graph) : KeepsTypes g g := by
  intro x node node' hnode _ hnode' _
  cases hnode.symm.trans hnode'
  exact List.forall₂_same.mpr fun stamp _ => .same stamp

/-! ## Alike nodes -/

/-- What `node'` holds in `g'` is like what `node` holds in `g`: addresses are the same, and values
have the same or a compatible stamp. -/
structure Alike (g g' : Graph) (node node' : Node) : Prop where
  /-- They are of one kind. -/
  kind : node'.kind = node.kind
  /-- They hold the same addresses. -/
  address : ∀ slot info, node.kind.layout[slot]? = some info → info.inputType = .address →
    node'.input slot = node.input slot
  /-- What they hold is like each other. -/
  like : ∀ slot info, node.kind.layout[slot]? = some info → info.inputType.isData = true →
    Like (g.slotStamp node slot) (g'.slotStamp node' slot)

/-- Then the rule for accesses reads much the same of them, if the addresses that they hold are
alike as well. -/
theorem Alike.operandStamps (alike : Alike g g' node node') (hfit : g.SlotsFit node)
    (hheld : ∀ slot d held, node.kind.layout[slot]? = some .address → node.input slot = some d →
      g.node? d = some held → held.isAlive = true →
      ∃ held', g'.node? d = some held' ∧ Alike g g' held held') :
    List.Forall₂ Like (g.operandStamps node) (g'.operandStamps node') := by
  have hbase : node.kind.layout[1]? = some .address →
      Like (g.baseStamp node) (g'.baseStamp node') := by
    intro hinfo
    rw [baseStamp, baseStamp, alike.address 1 .address hinfo rfl]
    cases hinput : node.input 1 with
    | none => exact .same none
    | some d =>
        obtain ⟨held, hd, halive, hallows⟩ := hfit.serves 1 .address hinput hinfo
        obtain ⟨held', hd', alike'⟩ := hheld 1 d held hinfo hinput hd halive
        rw [Option.bind_some, Option.bind_some, input, input, hd, hd', Option.bind_some,
          Option.bind_some]
        refine alike'.like 0 (.required "base" .value) ?_ rfl
        rw [allows_address_iff.mp hallows]
        rfl
  have hlike := alike.like
  unfold Graph.operandStamps
  rw [alike.kind]
  cases hkind : node.kind with
  | read access =>
      rw [hkind] at hlike hbase
      exact .cons (hlike 1 .address rfl rfl) (.cons (hbase rfl) .nil)
  | write access initialization =>
      rw [hkind] at hlike hbase
      exact .cons (hlike 1 .address rfl rfl)
        (.cons (hbase rfl) (.cons (hlike 2 (.required "value" .value) rfl rfl) .nil))
  | compareAndSwap kind location =>
      rw [hkind] at hlike
      exact .cons (hlike 3 (.required "expected" .value) rfl rfl)
        (.cons (hlike 4 (.required "new_value" .value) rfl rfl) .nil)
  | _ => exact .nil

/-! ## Steady graphs -/

/-- Attached nodes keep their stamp and their data, unless they leave the graph and nothing refers
to them. -/
def Steady (g g' : Graph) : Prop :=
  ∀ x node, g.node? x = some node → node.isAlive = true → g'.isAlive x = true ∨ g.usages x ≠ [] →
    ∃ node', g'.node? x = some node' ∧ node'.stamp = node.stamp ∧ node.SameData node'

/-- Nodes with the same data are alike, if what they hold is kept. -/
theorem Steady.alike (steady : Steady g g') (hfit : g.SlotsFit node)
    (hkept : ∀ slot d, node.input slot = some d → g'.isAlive d = true ∨ g.usages d ≠ [])
    (same : node.SameData node') : Alike g g' node node' := by
  refine ⟨same.kind, fun slot info hinfo haddress => ?_, fun slot info hinfo hdata => ?_⟩
  · exact same.input slot info hinfo (by rw [haddress]; rfl)
  · rw [slotStamp, slotStamp, same.input slot info hinfo hdata]
    cases hinput : node.input slot with
    | none => exact .same none
    | some d =>
        obtain ⟨held, hheld, halive, -⟩ := hfit.serves slot info hinput hinfo
        obtain ⟨held', hheld', hstamp, -⟩ := steady d held hheld halive (hkept slot d hinput)
        rw [Option.bind_some, Option.bind_some, stamp?, stamp?, hheld, hheld', Option.map_some,
          Option.map_some, hstamp]
        exact .same _

/-- What an attached node holds is in use. -/
theorem WellFormed.usages_ne_nil (wf : g.WellFormed) (hnode : g.node? id = some node)
    (halive : node.isAlive = true) {slot : Nat} {d : NodeId} (hinput : node.input slot = some d) :
    g.usages d ≠ [] :=
  List.ne_nil_of_mem (wf.mem_usages_iff.mpr ⟨node, hnode, halive, mem_slots_iff.mpr ⟨slot, hinput⟩⟩)

theorem Steady.operandStamps (steady : Steady g g') (wf : g.WellFormed) (hfit : g.SlotsFit node)
    (hkept : ∀ slot d, node.input slot = some d → g'.isAlive d = true ∨ g.usages d ≠ [])
    (same : node.SameData node') :
    List.Forall₂ Like (g.operandStamps node) (g'.operandStamps node') := by
  refine (steady.alike hfit hkept same).operandStamps hfit ?_
  intro slot d held _ hinput hheld halive
  obtain ⟨held', hheld', -, same'⟩ := steady d held hheld halive (hkept slot d hinput)
  -- the base is in use, by the address
  have hfit' := (wf.node hheld).slotsFit halive
  exact ⟨held', hheld', steady.alike hfit'
    (fun _ _ hbase => .inr (wf.usages_ne_nil hheld halive hbase)) same'⟩

/-- Steady graphs keep the types of operands. -/
theorem Steady.keepsTypes (steady : Steady g g') (wf : g.WellFormed) : KeepsTypes g g' := by
  intro id node node' hnode halive hnode' halive'
  obtain ⟨found, hfound, -, same⟩ :=
    steady id node hnode halive (.inl (isAlive_iff_exists.mpr ⟨node', hnode', halive'⟩))
  cases hnode'.symm.trans hfound
  exact steady.operandStamps wf ((wf.node hnode).slotsFit halive)
    (fun slot d hinput => .inr (wf.usages_ne_nil hnode halive hinput)) same

/-! ## Steady changes -/

/-- Nodes may be added. -/
theorem steady_of_node? (h : ∀ x : NodeId, x.index < g.size → g'.node? x = g.node? x) :
    Steady g g' := by
  intro x node hnode _ _
  exact ⟨node, (h x (lt_size_of_node? hnode)).trans hnode, rfl, node.sameData_refl⟩

theorem steady_insert (g : Graph) (node : Node) : Steady g (g.insert node) := by
  refine steady_of_node? fun x hx => ?_
  have hne : g.nextId ≠ x := by
    rintro rfl
    exact Nat.lt_irrefl _ hx
  rw [node?_insert, if_neg hne]

/-- What does not belong to the data of a node may change. -/
theorem steady_of_modify {f : Node → Node}
    (h : ∀ x, g'.node? x = if id = x then (g.node? x).map f else g.node? x)
    (hf : ∀ node, g.node? id = some node → node.isAlive = true →
      (f node).stamp = node.stamp ∧ node.SameData (f node)) : Steady g g' := by
  intro x node hnode halive _
  by_cases he : id = x
  · subst he
    obtain ⟨hstamp, same⟩ := hf node hnode halive
    exact ⟨f node, by rw [h, if_pos rfl, hnode]; rfl, hstamp, same⟩
  · exact ⟨node, by rw [h, if_neg he, hnode], rfl, node.sameData_refl⟩

/-- What nothing refers to may leave the graph. -/
theorem steady_bury (hunused : g.isAlive id = true → g.usages id = []) {state : NodeState}
    (hstate : state.isAlive = false) : Steady g (g.bury id state) := by
  intro x node hnode halive hkept
  by_cases he : id = x
  · subst he
    have hgone : (g.bury id state).isAlive id = false := by
      rw [isAlive, node?_bury, if_pos rfl, hnode]
      exact hstate
    rw [hunused (isAlive_iff_exists.mpr ⟨node, hnode, halive⟩), hgone] at hkept
    rcases hkept with h | h
    · cases h
    · exact absurd rfl h
  · exact ⟨node, by rw [node?_bury, if_neg he, hnode], rfl, node.sameData_refl⟩

/-- A slot that carries no data may be filled anew. -/
theorem sameData_set {slot : Nat} {info : SlotInfo} (hinfo : node.kind.layout[slot]? = some info)
    (hdata : info.inputType.isData = false) (input : Option NodeId) :
    node.SameData { node with slots := node.slots.set slot input } := by
  refine ⟨rfl, fun other found hfound hfoundData => ?_⟩
  have hne : slot ≠ other := by
    rintro rfl
    cases hinfo.symm.trans hfound
    rw [hdata] at hfoundData
    cases hfoundData
  unfold Node.input
  rw [List.getElem?_set, if_neg hne]

/-! ## Edits -/

/-- The edits that can exchange an operand, with any arguments. -/
inductive Exchange : {α : Type} → Edit α → Prop where
  | setInput (user : NodeId) (slot : Nat) (input : Option NodeId) :
      Exchange (setInput user slot input)
  | replaceInput (user old new : NodeId) : Exchange (replaceInput user old new)
  | replaceAtUsages (old new : NodeId) : Exchange (replaceAtUsages old new)
  | replaceAtUsagesOfType (old : NodeId) (type : InputType) (new : Option NodeId) :
      Exchange (replaceAtUsagesOfType old type new)

theorem Inserts.keepsTypes (h : g.Inserts g') (wf : g.WellFormed) : KeepsTypes g g' := by
  rcases h with rfl | ⟨node, -, rfl⟩
  · exact keepsTypes_refl _
  · exact (g.steady_insert node).keepsTypes wf

/-- The optional edges of an access are no data. -/
theorem steady_setOptional {type : InputType} (hdata : type.isData = false) (expected : String)
    (input : Option NodeId) :
    Steady g
      ((do let slot ← Edit.ask (·.requireSlotOf id type expected); setInput id slot input).after
        g) := by
  have same : Steady g g := steady_of_node? fun _ _ => rfl
  rw [after_setOptional]
  split
  · next slot hslot =>
    rw [after_setInput]
    split
    · next node hcheck =>
      split
      · -- the slot has the role
        obtain ⟨hnode, -⟩ := checkSetInput_eq_ok_iff.mp hcheck
        rw [requireSlotOf, bind_eq_ok_iff] at hslot
        obtain ⟨found, hfound, hslot⟩ := hslot
        cases hnode.symm.trans (requireAlive_eq_ok_iff.mp hfound).1
        refine steady_of_modify (fun x => g.node?_relink x id slot _ input) fun other hother _ => ?_
        cases hnode.symm.trans hother
        cases hfirst : node.kind.slotOf type with
        | none =>
            rw [hfirst] at hslot
            cases hslot
        | some first =>
            rw [hfirst] at hslot
            cases hslot
            obtain ⟨info, hinfo, rfl⟩ := NodeKind.exists_layout_of_slotOf hfirst
            exact ⟨rfl, sameData_set hinfo hdata input⟩
      · exact same
    · exact same
  · exact same

theorem steady_mark (bci : Node → UInt32) (flags : Node → NodeFlags) :
    Steady g
      ((do let _ ← Edit.fetch (·.node? id)
           modify fun g =>
            g.modifyNode id fun node => { node with bci := bci node, flags := flags node } :
        Edit Unit).after g) := by
  rw [after_fetch_modifyNode]
  split
  · exact steady_of_modify (fun x => g.node?_modifyNode id x _)
      fun node _ _ => ⟨rfl, rfl, fun _ _ _ _ => rfl⟩
  · exact steady_of_node? fun _ _ => rfl

/-- **Operations keep the types of operands**, if those that can exchange an operand do. -/
theorem Operation.keepsTypes (operation : Operation admits m) (wf : g.WellFormed)
    (keeps : Exchange m → KeepsTypes g (m.after g)) : KeepsTypes g (m.after g) := by
  cases operation with
  | setInput user slot input => exact keeps (.setInput user slot input)
  | replaceInput user old new => exact keeps (.replaceInput user old new)
  | replaceAtUsages old new => exact keeps (.replaceAtUsages old new)
  | replaceAtUsagesOfType old type new => exact keeps (.replaceAtUsagesOfType old type new)
  | add | newInstance | offsetAddress | frameState | nullCheckGuard | returnValue =>
      exact (inserts_add _).keepsTypes wf
  | parameter | constInt | constNull => exact (inserts_addLeaf _ rfl).keepsTypes wf
  | addRead | addCompareAndSwap =>
      exact Inserts.keepsTypes (inserts_ask_bind fun _ => inserts_add _) wf
  | addWrite =>
      exact Inserts.keepsTypes
        (inserts_ask_bind fun _ => inserts_ask_bind fun _ => inserts_add _) wf
  | addDetached =>
      refine (steady_of_node? fun x hx => ?_).keepsTypes wf
      have hne : x ≠ g.nextId := by
        rintro rfl
        exact Nat.lt_irrefl _ hx
      exact (g.node?_allocate x _).trans (if_neg hne)
  | attach id =>
      rw [after_attach]
      split
      · have hfind := fun x => (node?_registerInputs _ id x).trans (g.node?_modifyNode id x
          fun node => { node with state := .attached })
        exact (steady_of_modify hfind fun node _ _ => ⟨rfl, rfl, fun _ _ _ _ => rfl⟩).keepsTypes wf
      · exact g.keepsTypes_refl
  | addInput user input =>
      rw [after_addInput]
      split
      · -- a further value comes after the slots of the layout
        refine Steady.keepsTypes (steady_of_modify (fun x => g.node?_modifyNode user x _)
          fun node hnode halive => ⟨rfl, rfl, fun slot info hinfo _ => ?_⟩) wf
        have hlt := Nat.lt_of_lt_of_le (List.getElem?_eq_some_iff.mp hinfo).1
          ((wf.node hnode).layout_le (.inl halive))
        simp only [Node.input, List.getElem?_append_left hlt]
      · exact g.keepsTypes_refl
  | removeInput user slot =>
      rw [after_removeInput]
      split
      · next target hcheck =>
        obtain ⟨found, hfound, -, -, hfixed⟩ := checkRemoveInput_eq_ok_iff.mp hcheck
        refine Steady.keepsTypes (steady_of_modify (fun x => g.node?_modifyNode user x _)
          fun node hnode _ => ⟨rfl, rfl, fun other info hinfo _ => ?_⟩) wf
        cases hfound.symm.trans hnode
        have hlt := Nat.lt_of_lt_of_le (List.getElem?_eq_some_iff.mp hinfo).1 hfixed
        simp only [Node.input, List.getElem?_eraseIdx_of_lt hlt]
      · exact g.keepsTypes_refl
  | delete id =>
      rw [after_delete]
      split
      · next hcheck =>
        obtain ⟨node, hnode, hunused⟩ := checkDelete_eq_ok_iff.mp hcheck
        refine (steady_bury (fun halive => ?_) rfl).keepsTypes wf
        refine (hunused.resolve_left fun hdetached => ?_).2
        rw [isAlive, hnode, Option.any_some, Node.isAlive, hdetached] at halive
        cases halive
      · exact g.keepsTypes_refl
  | setStateAfter | setLastLocationAccess | setGuard =>
      exact (steady_setOptional rfl _ _).keepsTypes wf
  | setFlags id flags => exact (steady_mark Node.bci fun _ => flags).keepsTypes wf
  | setNodeBci id bci => exact (steady_mark (fun _ => bci) Node.flags).keepsTypes wf
  | setBci | internLocation => exact (steady_of_node? fun _ _ => rfl).keepsTypes wf

end Graph

end SeaOfNodes
