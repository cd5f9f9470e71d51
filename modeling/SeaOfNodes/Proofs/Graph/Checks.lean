import SeaOfNodes.Graph.Rewire
import SeaOfNodes.Graph.Remove
import SeaOfNodes.Graph.Create

/-!
# What the checks accept

A check answers in `Except`.  For each of them this module states when the answer is `ok`, in terms
of two predicates that speak of the graph only:

* `Graph.Serves g id type` — `id` is an attached node that may be referred to in the role `type`.
* `Graph.Fits g info input` — `input` may fill a slot described by `info`.

Both look at no more of a node than whether it is attached and what kind it is.  Edits that change
slots therefore leave them alone, and edits that insert nodes can only make more of them true; this
is `Graph.Serves.mono`.
-/

namespace SeaOfNodes

/-! ## Success in `Except` -/

section Except

variable {ε α β : Type}

theorem bind_eq_ok_iff {x : Except ε α} {f : α → Except ε β} {b : β} :
    (x >>= f) = .ok b ↔ ∃ a, x = .ok a ∧ f a = .ok b := by
  cases x <;> simp [bind, Except.bind]

theorem pure_eq_ok_iff {a b : α} : (pure a : Except ε α) = .ok b ↔ a = b := by
  simp [pure, Except.pure]

/-- A branch that throws otherwise succeeds when the condition holds and the branch succeeds. -/
theorem guarded_eq_ok_iff {p : Prop} [Decidable p] {x : Except ε α} {e : ε} {a : α} :
    (if p then x else throw e) = .ok a ↔ p ∧ x = .ok a := by
  split
  · next h => simp [h]
  · next h => simp [h, throw, throwThe, MonadExceptOf.throw]

/-- Nothing follows a refusal. -/
theorem throw_bind_eq {e : ε} {k : α → Except ε β} : ((throw e : Except ε α) >>= k) = throw e := rfl

/-- A refusal succeeds when the condition fails and the branch after it succeeds. -/
theorem refused_eq_ok_iff {p : Prop} [Decidable p] {x : Except ε α} {e : ε} {a : α} :
    (if p then throw e else x) = .ok a ↔ ¬ p ∧ x = .ok a := by
  rw [← ite_not, guarded_eq_ok_iff]

theorem exists_unit_iff {p : Unit → Prop} : (∃ u, p u) ↔ p () :=
  ⟨fun ⟨(), h⟩ => h, fun h => ⟨(), h⟩⟩

/-- A list of checks passes when each of them does. -/
theorem forM_eq_ok_iff {xs : List α} {f : α → Except ε Unit} :
    xs.forM f = .ok () ↔ ∀ x ∈ xs, f x = .ok () := by
  induction xs with
  | nil => simp [List.forM, pure, Except.pure]
  | cons x xs ih =>
    have hcons : (x :: xs).forM f = (f x >>= fun _ => xs.forM f) := rfl
    rw [hcons, bind_eq_ok_iff, exists_unit_iff, ih, List.forall_mem_cons]

end Except

namespace Graph

variable {g g' : Graph} {id : NodeId} {node : Node}

/-! ## Serving in a role -/

/-- `id` is an attached node that may be referred to in the role `type`. -/
def Serves (g : Graph) (id : NodeId) (type : InputType) : Prop :=
  ∃ node, g.node? id = some node ∧ node.isAlive = true ∧ node.kind.allows type = true

/-- `input` may fill a slot described by `info`. -/
def Fits (g : Graph) (info : SlotInfo) : Option NodeId → Prop
  | none => info.optional = true
  | some id => g.Serves id info.inputType

/-- An optional slot is empty, or holds what serves in its role. -/
theorem fits_optional_iff (info : SlotInfo) (hoptional : info.optional = true)
    {input : Option NodeId} : g.Fits info input ↔ ∀ d ∈ input, g.Serves d info.inputType := by
  cases input with
  | none => simp [Fits, hoptional]
  | some d => simp [Fits]

theorem serves_iff {type : InputType} :
    g.Serves id type ↔ g.isAlive id = true ∧ g.allowsUsage id type = true := by
  rw [Serves, isAlive, allowsUsage]
  cases g.node? id <;> simp

/-- Serving depends on nothing but which nodes are attached and of what kind they are. -/
theorem Serves.mono {type : InputType} (h : g.Serves id type)
    (keep : ∀ node, g.node? id = some node → node.isAlive = true →
      ∃ node', g'.node? id = some node' ∧ node'.isAlive = true ∧ node'.kind = node.kind) :
    g'.Serves id type := by
  obtain ⟨node, hnode, halive, hallows⟩ := h
  obtain ⟨node', hnode', halive', hkind⟩ := keep node hnode halive
  exact ⟨node', hnode', halive', hkind ▸ hallows⟩

theorem Fits.mono {info : SlotInfo} {input : Option NodeId} (h : g.Fits info input)
    (keep : ∀ d type, input = some d → g.Serves d type → g'.Serves d type) :
    g'.Fits info input := by
  cases input with
  | none => exact h
  | some d => exact keep d _ rfl h

/-! ## Checks of one node -/

theorem checked_eq_ok_iff : g.checked id = .ok node ↔ g.node? id = some node := by
  rw [checked]
  cases g.node? id <;> simp

theorem requireAlive_eq_ok_iff :
    g.requireAlive id = .ok node ↔ g.node? id = some node ∧ node.isAlive = true := by
  rw [requireAlive, bind_eq_ok_iff]
  simp only [checked_eq_ok_iff]
  constructor
  · rintro ⟨found, hfound, h⟩
    obtain ⟨halive, h⟩ := guarded_eq_ok_iff.mp h
    cases pure_eq_ok_iff.mp h
    exact ⟨hfound, halive⟩
  · rintro ⟨hnode, halive⟩
    exact ⟨node, hnode, guarded_eq_ok_iff.mpr ⟨halive, rfl⟩⟩

theorem isAlive_iff_exists :
    g.isAlive id = true ↔ ∃ node, g.node? id = some node ∧ node.isAlive = true := by
  rw [isAlive]
  cases g.node? id <;> simp

/-! ## Checks of slots -/

section Slots

variable {user : NodeId} {kind : NodeKind} {info : SlotInfo} {slot : Nat}

theorem checkInput_eq_ok_iff {input : Option NodeId} :
    g.checkInput user kind info input = .ok () ↔ g.Fits info input := by
  cases input with
  | none =>
    rw [checkInput, Fits, guarded_eq_ok_iff]
    exact and_iff_left rfl
  | some d =>
    rw [checkInput, bind_eq_ok_iff, Fits, Serves]
    simp only [requireAlive_eq_ok_iff]
    apply exists_congr
    intro target
    rw [and_assoc, guarded_eq_ok_iff]
    exact and_congr_right fun _ => and_congr_right fun _ => and_iff_left rfl

theorem requireSlot_eq_ok_iff :
    requireSlot user node slot = .ok info ↔ node.slotInfo slot = some info := by
  rw [requireSlot]
  cases node.slotInfo slot <;> simp

/-- Every slot of a node is described and rightly filled. -/
def SlotsFit (g : Graph) (node : Node) : Prop :=
  ∀ slot < node.slots.length,
    ∃ info, node.slotInfo slot = some info ∧ g.Fits info (node.input slot)

theorem checkInputs_eq_ok_iff : g.checkInputs user node = .ok () ↔ g.SlotsFit node := by
  rw [checkInputs, forM_eq_ok_iff]
  simp only [List.mem_range, SlotsFit, checkSlot, bind_eq_ok_iff, requireSlot_eq_ok_iff,
    checkInput_eq_ok_iff]

theorem checkSites_eq_ok_iff {input : Option NodeId} {sites : List UseSite} :
    g.checkSites input sites = .ok () ↔
      ∀ site ∈ sites, (∃ user, g.node? site.user = some user) ∧ g.Fits site.info input := by
  rw [checkSites, forM_eq_ok_iff]
  simp only [bind_eq_ok_iff, checked_eq_ok_iff, checkInput_eq_ok_iff, exists_and_right]

theorem checkUnused_eq_ok_iff : g.checkUnused id = .ok () ↔ g.usages id = [] := by
  rw [checkUnused, usageCount, guarded_eq_ok_iff, List.length_eq_zero_iff]
  exact and_iff_left rfl

end Slots

/-! ## Checks of edits -/

section Edits

variable {user target : NodeId} {slot : Nat}

theorem checkSetInput_eq_ok_iff {input : Option NodeId} :
    g.checkSetInput user slot input = .ok node ↔
      g.node? user = some node ∧ node.isAlive = true ∧
        ∃ info, node.slotInfo slot = some info ∧ g.Fits info input := by
  simp only [checkSetInput, bind_eq_ok_iff, requireAlive_eq_ok_iff, requireSlot_eq_ok_iff,
    exists_unit_iff, checkInput_eq_ok_iff, pure_eq_ok_iff]
  constructor
  · rintro ⟨n, ⟨hn, halive⟩, info, hinfo, hfits, rfl⟩
    exact ⟨hn, halive, info, hinfo, hfits⟩
  · rintro ⟨hn, halive, info, hinfo, hfits⟩
    exact ⟨node, ⟨hn, halive⟩, info, hinfo, hfits, rfl⟩

theorem checkAddInput_eq_ok_iff :
    g.checkAddInput user target = .ok () ↔
      ∃ node type, g.node? user = some node ∧ node.isAlive = true ∧
        node.kind.variadic = some type ∧ g.Serves target type := by
  simp only [checkAddInput, bind_eq_ok_iff, requireAlive_eq_ok_iff]
  apply exists_congr
  intro n
  cases n.kind.variadic with
  | none => simp [throw, throwThe, MonadExceptOf.throw]
  | some type => simp [checkInput_eq_ok_iff, Fits, NodeKind.tailSlot, SlotInfo.required, and_assoc]

theorem checkRemoveInput_eq_ok_iff :
    g.checkRemoveInput user slot = .ok target ↔
      ∃ node, g.node? user = some node ∧ node.isAlive = true ∧
        node.input slot = some target ∧ node.kind.layout.length ≤ slot := by
  simp only [checkRemoveInput, bind_eq_ok_iff, requireAlive_eq_ok_iff]
  apply exists_congr
  intro n
  rw [and_assoc]
  refine and_congr_right fun _ => and_congr_right fun _ => ?_
  cases n.input slot with
  | none => simp [throw, throwThe, MonadExceptOf.throw]
  | some d => simp only [guarded_eq_ok_iff, pure_eq_ok_iff, Option.some.injEq, and_comm]

theorem checkReplaceInput_eq_ok_iff {old new : NodeId} {sites : List UseSite} :
    g.checkReplaceInput user old new = .ok sites ↔
      ∃ node, g.node? user = some node ∧ node.isAlive = true ∧
        sites = ((node.slotsHolding old).map fun (slot, info) => ⟨user, slot, info⟩) ∧
        g.checkSites (some new) sites = .ok () := by
  simp only [checkReplaceInput, bind_eq_ok_iff, requireAlive_eq_ok_iff, exists_unit_iff,
    pure_eq_ok_iff]
  constructor
  · rintro ⟨n, ⟨hn, halive⟩, hsites, rfl⟩
    exact ⟨n, hn, halive, rfl, hsites⟩
  · rintro ⟨n, hn, halive, rfl, hsites⟩
    exact ⟨n, ⟨hn, halive⟩, hsites, rfl⟩

theorem checkReplaceAtUsages_eq_ok_iff {old new : NodeId} {sites : List UseSite} :
    g.checkReplaceAtUsages old new = .ok sites ↔
      g.isAlive old = true ∧ sites = g.usageSites old ∧ g.isAlive new = true ∧
        ∀ site ∈ sites, g.Serves new site.info.inputType := by
  simp only [checkReplaceAtUsages, bind_eq_ok_iff, requireAlive_eq_ok_iff, exists_unit_iff,
    pure_eq_ok_iff, forM_eq_ok_iff, guarded_eq_ok_iff, isAlive_iff_exists]
  constructor
  · rintro ⟨n, hold, t, ⟨ht, halive⟩, hsites, rfl⟩
    exact ⟨⟨n, hold⟩, rfl, ⟨t, ht, halive⟩, fun site hs => ⟨t, ht, halive, (hsites site hs).1⟩⟩
  · rintro ⟨⟨n, hold⟩, rfl, ⟨t, ht, halive⟩, hsites⟩
    refine ⟨n, hold, t, ⟨ht, halive⟩, fun site hs => ⟨?_, trivial⟩, rfl⟩
    obtain ⟨t', ht', -, hallows⟩ := hsites site hs
    rw [ht] at ht'
    exact (Option.some.inj ht') ▸ hallows

theorem checkReplaceAtUsagesOfType_eq_ok_iff {old : NodeId} {new : Option NodeId}
    {type : InputType} {sites : List UseSite} :
    g.checkReplaceAtUsagesOfType old type new = .ok sites ↔
      g.isAlive old = true ∧
        sites = ((g.usageSites old).filter fun site => site.info.inputType = type) ∧
        g.checkSites new sites = .ok () := by
  simp only [checkReplaceAtUsagesOfType, bind_eq_ok_iff, requireAlive_eq_ok_iff, exists_unit_iff,
    pure_eq_ok_iff, isAlive_iff_exists]
  constructor
  · rintro ⟨n, hold, hsites, rfl⟩
    exact ⟨⟨n, hold⟩, rfl, hsites⟩
  · rintro ⟨⟨n, hold⟩, rfl, hsites⟩
    exact ⟨n, hold, hsites, rfl⟩

theorem checkAttach_eq_ok_iff :
    g.checkAttach id = .ok () ↔
      ∃ node, g.node? id = some node ∧ node.state = .detached ∧ g.SlotsFit node := by
  simp only [checkAttach, bind_eq_ok_iff, checked_eq_ok_iff]
  refine exists_congr fun n => and_congr_right fun _ => ?_
  rw [guarded_eq_ok_iff, checkInputs_eq_ok_iff]

theorem checkDelete_eq_ok_iff :
    g.checkDelete id = .ok () ↔
      ∃ node, g.node? id = some node ∧
        (node.state = .detached ∨ node.state = .attached ∧ g.usages id = []) := by
  simp only [checkDelete, bind_eq_ok_iff, checked_eq_ok_iff]
  refine exists_congr fun n => and_congr_right fun _ => ?_
  cases n.state <;>
    simp [pure, Except.pure, throw, throwThe, MonadExceptOf.throw, checkUnused_eq_ok_iff]

theorem checkRetire_eq_ok_iff :
    g.checkRetire id = .ok () ↔ g.isAlive id = true ∧ g.usages id = [] := by
  simp only [checkRetire, bind_eq_ok_iff, requireAlive_eq_ok_iff, checkUnused_eq_ok_iff,
    isAlive_iff_exists, exists_and_right]

end Edits

end Graph

end SeaOfNodes
