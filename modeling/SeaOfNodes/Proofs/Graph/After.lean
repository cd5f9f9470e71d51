import SeaOfNodes.Access.Edges
import SeaOfNodes.Access.Request
import SeaOfNodes.Proofs.Graph.Checks

/-!
# What an edit leaves behind

`Edit.after m g` is the graph that `m` leaves when it is run on `g`, whether it succeeds or fails.
For every edit one equation says what that is: the graph itself if the check refuses, and the
elementary change otherwise.  With these equations an invariant of edits is a statement about
elementary changes, one for each, under what the check has found out.

Edits that are run for their answer are described by `run`: `Edit.run_ask_bind` steps over a check.
-/

namespace SeaOfNodes

/-- After a step that succeeds, what follows takes over. -/
theorem run_bind_of_ok {ε σ α β : Type} {m : EStateM ε σ α} {k : α → EStateM ε σ β} {s s' : σ}
    {a : α}
    (h : m.run s = .ok a s') : (m >>= k).run s = (k a).run s' := by
  simp only [EStateM.run] at h ⊢
  simp only [bind, EStateM.bind, h]

/-- After a step that fails nothing follows. -/
theorem run_bind_of_error {ε σ α β : Type} {m : EStateM ε σ α} {k : α → EStateM ε σ β} {s s' : σ}
    {e : ε} (h : m.run s = .error e s') : (m >>= k).run s = .error e s' := by
  simp only [EStateM.run] at h ⊢
  simp only [bind, EStateM.bind, h]

namespace Edit

variable {α β : Type}

/-- The graph that an edit leaves, whether it succeeds or fails. -/
def after (m : Edit α) (g : Graph) : Graph :=
  match m.run g with
  | .ok _ g' | .error _ g' => g'

variable (g : Graph)

theorem after_of_run_ok {m : Edit α} {g g' : Graph} {a : α} (h : m.run g = .ok a g') :
    m.after g = g' := by
  unfold after
  rw [h]

/-- A check is followed by what it permits, or by nothing. -/
theorem run_ask_bind (f : Graph → Except Violation α) (k : α → Edit β) :
    (ask f >>= k).run g =
      match f g with
      | .ok a => (k a).run g
      | .error v => .error (.violation v) g := by
  simp only [EStateM.run, bind, EStateM.bind, ask]
  cases f g <;> rfl

variable {g} in
/-- A check followed by what it permits succeeds if both do. -/
theorem run_ask_bind_eq_ok_iff {f : Graph → Except Violation α} {k : α → Edit β} {g' : Graph}
    {b : β} : (ask f >>= k).run g = .ok b g' ↔ ∃ a, f g = .ok a ∧ (k a).run g = .ok b g' := by
  rw [run_ask_bind]
  cases f g <;> simp

theorem after_ask_bind (f : Graph → Except Violation α) (k : α → Edit β) :
    (ask f >>= k).after g =
      match f g with
      | .ok a => (k a).after g
      | .error _ => g := by
  simp only [after, run_ask_bind]
  cases f g <;> rfl

theorem after_fetch_bind (f : Graph → Option α) (k : α → Edit β) :
    (fetch f >>= k).after g =
      match f g with
      | some a => (k a).after g
      | none => g := by
  simp only [after, EStateM.run, bind, EStateM.bind, fetch]
  cases f g <;> rfl

@[simp] theorem after_get_bind (k : Graph → Edit β) :
    ((get : Edit Graph) >>= k).after g = (k g).after g := rfl

@[simp] theorem run_get_bind (k : Graph → Edit β) :
    ((get : Edit Graph) >>= k).run g = (k g).run g := rfl

/-- What two steps leave is what the second leaves of the first, or what the first leaves. -/
theorem after_bind (m : Edit α) (k : α → Edit β) :
    (m >>= k).after g =
      match m.run g with
      | .ok a g' => (k a).after g'
      | .error _ g' => g' := by
  simp only [after, EStateM.run, bind, EStateM.bind]
  cases m g <;> rfl

end Edit

namespace Graph

open Edit

variable (g : Graph) (id user : NodeId) (slot : Nat)

/-! ## Creation -/

theorem run_add (node : Node) :
    (add node).run g =
      match g.checkInputs g.nextId node with
      | .ok _ => .ok g.nextId (g.insert node)
      | .error v => .error (.violation v) g := by
  unfold add
  rw [run_ask_bind]
  cases g.checkInputs g.nextId node <;> rfl

theorem after_add (node : Node) :
    (add node).after g =
      match g.checkInputs g.nextId node with
      | .ok _ => g.insert node
      | .error _ => g := by
  unfold after
  rw [run_add]
  cases g.checkInputs g.nextId node <;> rfl

variable {g id} in
theorem run_add_eq_ok_iff {node : Node} {g' : Graph} :
    (add node).run g = .ok id g' ↔ g.SlotsFit node ∧ g.nextId = id ∧ g.insert node = g' := by
  rw [run_add, ← checkInputs_eq_ok_iff]
  cases g.checkInputs g.nextId node <;> simp

theorem run_attach :
    (attach id).run g =
      match g.checkAttach id with
      | .ok _ => .ok ()
          ((g.modifyNode id fun node => { node with state := .attached }).registerInputs id)
      | .error v => .error (.violation v) g := by
  unfold attach
  rw [run_ask_bind]
  cases g.checkAttach id <;> rfl

theorem after_attach :
    (attach id).after g =
      match g.checkAttach id with
      | .ok _ =>
        (g.modifyNode id fun node => { node with state := .attached }).registerInputs id
      | .error _ => g := by
  unfold after
  rw [run_attach]
  cases g.checkAttach id <;> rfl

theorem after_addRead (request : ReadRequest) :
    (addRead request).after g =
      match g.checkAddress request.address request.location with
      | .ok _ => (add (g.readNode request)).after g
      | .error _ => g := by
  unfold addRead
  rw [after_ask_bind]
  cases g.checkAddress request.address request.location <;> rfl

theorem after_addWrite (request : WriteRequest) :
    (addWrite request).after g =
      match g.checkAddress request.address request.location,
        g.checkValue request.value request.location with
      | .ok _, .ok _ => (add (writeNode request)).after g
      | _, _ => g := by
  unfold addWrite
  rw [after_ask_bind]
  cases g.checkAddress request.address request.location with
  | error => rfl
  | ok =>
      dsimp only
      rw [after_ask_bind]
      cases g.checkValue request.value request.location <;> rfl

theorem after_addCompareAndSwap (request : SwapRequest) :
    (addCompareAndSwap request).after g =
      match g.checkSwap request with
      | .ok _ => (add (swapNode request)).after g
      | .error _ => g := by
  unfold addCompareAndSwap
  rw [after_ask_bind]
  cases g.checkSwap request <;> rfl

/-! ## Rewiring -/

theorem run_setInput (input : Option NodeId) :
    (setInput user slot input).run g =
      match g.checkSetInput user slot input with
      | .ok node =>
        if node.input slot = input then .ok (node.input slot) g
        else if slot < node.slots.length then
          .ok (node.input slot) (g.relink user slot (node.input slot) input)
        else .error .outOfRange g
      | .error v => .error (.violation v) g := by
  unfold setInput
  rw [run_ask_bind]
  cases g.checkSetInput user slot input with
  | error => rfl
  | ok node =>
      dsimp only
      by_cases hsame : node.input slot = input
      · rw [if_pos hsame, if_pos hsame]
        rfl
      · rw [if_neg hsame, if_neg hsame]
        split <;> rfl

theorem after_setInput (input : Option NodeId) :
    (setInput user slot input).after g =
      match g.checkSetInput user slot input with
      | .ok node =>
        if node.input slot ≠ input ∧ slot < node.slots.length
        then g.relink user slot (node.input slot) input
        else g
      | .error _ => g := by
  unfold after
  rw [run_setInput]
  cases g.checkSetInput user slot input with
  | error => rfl
  | ok node =>
      dsimp only
      by_cases hsame : node.input slot = input <;> by_cases hslot : slot < node.slots.length <;>
        simp [hsame, hslot]

theorem run_addInput (input : NodeId) :
    (addInput user input).run g =
      match g.checkAddInput user input with
      | .ok _ => .ok ()
          ((g.modifyNode user fun node => { node with slots := node.slots ++ [some input] }).addUse
            input user)
      | .error v => .error (.violation v) g := by
  unfold addInput
  rw [run_ask_bind]
  cases g.checkAddInput user input <;> rfl

theorem after_addInput (input : NodeId) :
    (addInput user input).after g =
      match g.checkAddInput user input with
      | .ok _ =>
        (g.modifyNode user fun node => { node with slots := node.slots ++ [some input] }).addUse
          input user
      | .error _ => g := by
  unfold after
  rw [run_addInput]
  cases g.checkAddInput user input <;> rfl

theorem run_removeInput :
    (removeInput user slot).run g =
      match g.checkRemoveInput user slot with
      | .ok target => .ok target
          ((g.modifyNode user fun node => { node with slots := node.slots.eraseIdx slot }).dropUse
            target user)
      | .error v => .error (.violation v) g := by
  unfold removeInput
  rw [run_ask_bind]
  cases g.checkRemoveInput user slot <;> rfl

theorem after_removeInput :
    (removeInput user slot).after g =
      match g.checkRemoveInput user slot with
      | .ok target =>
        (g.modifyNode user fun node => { node with slots := node.slots.eraseIdx slot }).dropUse
          target user
      | .error _ => g := by
  unfold after
  rw [run_removeInput]
  cases g.checkRemoveInput user slot <;> rfl

theorem after_replaceInput (old new : NodeId) :
    (replaceInput user old new).after g =
      match g.checkReplaceInput user old new with
      | .ok sites => g.relinkAll sites (some old) (some new)
      | .error _ => g := by
  unfold replaceInput
  rw [after_ask_bind]
  cases g.checkReplaceInput user old new <;> rfl

theorem run_replaceAtUsages (old new : NodeId) :
    (replaceAtUsages old new).run g =
      match g.checkReplaceAtUsages old new with
      | .ok sites => .ok () (g.relinkAll sites (some old) (some new))
      | .error v => .error (.violation v) g := by
  unfold replaceAtUsages
  rw [run_ask_bind]
  cases g.checkReplaceAtUsages old new <;> rfl

theorem after_replaceAtUsages (old new : NodeId) :
    (replaceAtUsages old new).after g =
      match g.checkReplaceAtUsages old new with
      | .ok sites => g.relinkAll sites (some old) (some new)
      | .error _ => g := by
  unfold after
  rw [run_replaceAtUsages]
  cases g.checkReplaceAtUsages old new <;> rfl

theorem run_replaceAtUsagesOfType (old : NodeId) (type : InputType) (new : Option NodeId) :
    (replaceAtUsagesOfType old type new).run g =
      match g.checkReplaceAtUsagesOfType old type new with
      | .ok sites => .ok sites.length (g.relinkAll sites (some old) new)
      | .error v => .error (.violation v) g := by
  unfold replaceAtUsagesOfType
  rw [run_ask_bind]
  cases g.checkReplaceAtUsagesOfType old type new <;> rfl

theorem after_replaceAtUsagesOfType (old : NodeId) (type : InputType) (new : Option NodeId) :
    (replaceAtUsagesOfType old type new).after g =
      match g.checkReplaceAtUsagesOfType old type new with
      | .ok sites => g.relinkAll sites (some old) new
      | .error _ => g := by
  unfold after
  rw [run_replaceAtUsagesOfType]
  cases g.checkReplaceAtUsagesOfType old type new <;> rfl

/-- A setter of an optional edge sets the slot of its role, or does nothing. -/
theorem after_setOptional (type : InputType) (expected : String) (input : Option NodeId) :
    (do let slot ← ask (·.requireSlotOf id type expected); setInput id slot input).after g =
      match g.requireSlotOf id type expected with
      | .ok slot => (setInput id slot input).after g
      | .error _ => g := by
  rw [after_ask_bind]
  cases g.requireSlotOf id type expected <;> rfl

/-! ## Leaving the graph -/

theorem after_delete :
    (delete id).after g =
      match g.checkDelete id with
      | .ok _ => g.bury id .deleted
      | .error _ => g := by
  unfold delete
  rw [after_ask_bind]
  cases g.checkDelete id <;> rfl

theorem run_retire :
    (retire id).run g =
      match g.checkRetire id with
      | .ok _ => .ok () (g.bury id .replaced)
      | .error v => .error (.violation v) g := by
  unfold retire
  rw [run_ask_bind]
  cases g.checkRetire id <;> rfl

theorem after_retire :
    (retire id).after g =
      match g.checkRetire id with
      | .ok _ => g.bury id .replaced
      | .error _ => g := by
  unfold after
  rw [run_retire]
  cases g.checkRetire id <;> rfl

/-! ## Marks -/

/-- The marks and the bytecode index of a node change alike: at a node that exists. -/
theorem after_fetch_modifyNode (f : Node → Node) :
    (do let _ ← fetch (·.node? id); modify fun g => g.modifyNode id f : Edit Unit).after g =
      if (g.node? id).isSome then g.modifyNode id f else g := by
  rw [after_fetch_bind]
  cases g.node? id <;> rfl

end Graph

end SeaOfNodes
