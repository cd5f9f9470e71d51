import Mathlib.Logic.Relation
import SeaOfNodes.Proofs.Graph.Runs

/-!
# What runs keep

**`Reaches.changes`** resolves a run into the changes of `Graph.Change`.  So what every change keeps
is kept by every run, and `Reaches.balanced` and `Reachable.wellFormed` are the cases of the two
invariants.
-/

namespace SeaOfNodes

namespace Graph

/-! ## Edits as changes -/

/-- Any number of changes. -/
abbrev Changes (admits : Node → Prop) : Graph → Graph → Prop :=
  Relation.ReflTransGen fun g g' => ∃ label, Change admits g label g'

/-- Any number of changes in which no node is replaced. -/
abbrev Revisions (admits : Node → Prop) : Graph → Graph → Prop :=
  Relation.ReflTransGen fun g g' => Change admits g none g'

/-- At most one change, in which no node is replaced. -/
abbrev MayChange (admits : Node → Prop) : Graph → Graph → Prop :=
  Relation.ReflGen fun g g' => Change admits g none g'

variable {admits : Node → Prop} {g g' : Graph} {label : Option NodeId}

theorem Changes.balanced (h : Changes admits g g') (b : g.Balanced) : g'.Balanced := by
  induction h with
  | refl => exact b
  | tail _ change ih =>
      obtain ⟨label, change⟩ := change
      exact change.balanced ih

theorem Changes.wellFormed (h : Changes admits g g') (built : ∀ node, admits node → node.Built)
    (wf : g.WellFormed) : g'.WellFormed := by
  induction h with
  | refl => exact wf
  | tail _ change ih =>
      obtain ⟨label, change⟩ := change
      exact change.wellFormed built ih

theorem Change.changes (h : Change admits g label g') : Changes admits g g' :=
  Relation.ReflTransGen.single ⟨label, h⟩

/-- What is admitted by less is admitted by more. -/
theorem Changes.mono (h : Changes admits g g') {admits' : Node → Prop}
    (weaker : ∀ node, admits node → admits' node) : Changes admits' g g' := by
  refine Relation.ReflTransGen.mono ?_ g g' h
  rintro _ _ ⟨label, change⟩
  exact ⟨label, change.mono weaker⟩

theorem Change.revisions (h : Change admits g none g') : Revisions admits g g' :=
  Relation.ReflTransGen.single h

theorem Revisions.changes (h : Revisions admits g g') : Changes admits g g' := by
  refine Relation.ReflTransGen.mono ?_ g g' h
  exact fun _ _ change => ⟨none, change⟩

theorem Revisions.balanced (h : Revisions admits g g') (b : g.Balanced) : g'.Balanced :=
  h.changes.balanced b

theorem MayChange.revisions (h : MayChange admits g g') : Revisions admits g g' :=
  h.to_reflTransGen

theorem MayChange.changes (h : MayChange admits g g') : Changes admits g g' :=
  h.revisions.changes

theorem MayChange.balanced (h : MayChange admits g g') (b : g.Balanced) : g'.Balanced :=
  h.changes.balanced b

theorem MayChange.wellFormed (h : MayChange admits g g')
    (built : ∀ node, admits node → node.Built) (wf : g.WellFormed) : g'.WellFormed :=
  h.changes.wellFormed built wf

theorem change_add {node : Node} (enters : Enters admits g node) :
    MayChange admits g ((add node).after g) := by
  rw [after_add]
  split
  · next hcheck => exact .single (Change.insert enters (checkInputs_eq_ok_iff.mp hcheck))
  · exact .refl

/-- A node that lowering leaves alone is added like one that was built by hand. -/
theorem change_addPlain (kind : NodeKind) (stamp : Stamp) (inputs : List (Option NodeId))
    (hkind : kind.isLowerable = false) :
    MayChange admits g ((add (.withInputs kind stamp inputs)).after g) :=
  change_add (.plain (Node.built_withInputs kind stamp inputs) hkind)

theorem slots_leaf {kind : NodeKind} (stamp : Stamp) (hlayout : kind.layout = []) :
    (Node.new kind stamp).slots = [] := by
  simp [Node.new, Node.withInputs, hlayout]

/-- A leaf is a node without slots, and so it is inserted like any other node. -/
theorem after_addLeaf {kind : NodeKind} (stamp : Stamp) (hlayout : kind.layout = []) :
    (addLeaf kind stamp).after g = g.insert (Node.new kind stamp) := by
  have hinputs : (Node.new kind stamp).inputs = [] := by
    rw [Node.inputs, slots_leaf stamp hlayout]
    rfl
  unfold insert registerInputs
  rw [node?_allocate, if_pos rfl]
  exact (congrArg (List.foldl _ _) hinputs).symm

theorem slotsFit_leaf {kind : NodeKind} (stamp : Stamp) (hlayout : kind.layout = []) :
    g.SlotsFit (Node.new kind stamp) := by
  intro slot hslot
  rw [slots_leaf stamp hlayout] at hslot
  cases hslot

theorem change_addLeaf {kind : NodeKind} (stamp : Stamp) (hlayout : kind.layout = [])
    (hkind : kind.isLowerable = false) : MayChange admits g ((addLeaf kind stamp).after g) := by
  rw [after_addLeaf stamp hlayout]
  exact .single (Change.insert (.plain (Node.built_withInputs kind stamp []) hkind)
    (slotsFit_leaf stamp hlayout))

theorem change_addRead (request : ReadRequest) :
    MayChange admits g ((addRead request).after g) := by
  rw [after_addRead]
  split
  · next hcheck => exact change_add (.read hcheck)
  · exact .refl

theorem change_addWrite (request : WriteRequest) :
    MayChange admits g ((addWrite request).after g) := by
  rw [after_addWrite]
  split
  · next haddress hvalue => exact change_add (.write haddress hvalue)
  · exact .refl

theorem change_addCompareAndSwap (request : SwapRequest) :
    MayChange admits g ((addCompareAndSwap request).after g) := by
  rw [after_addCompareAndSwap]
  split
  · next hcheck => exact change_add (.swap hcheck)
  · exact .refl

theorem change_attach (id : NodeId) : MayChange admits g ((attach id).after g) := by
  rw [after_attach]
  split
  · next hcheck =>
    obtain ⟨node, hnode, hstate, hfit⟩ := checkAttach_eq_ok_iff.mp hcheck
    exact .single (Change.attach hnode hstate hfit)
  · exact .refl

theorem change_setInput (user : NodeId) (slot : Nat) (input : Option NodeId) :
    MayChange admits g ((setInput user slot input).after g) := by
  rw [after_setInput]
  split
  · next node hcheck =>
    split
    · next hslot =>
      obtain ⟨info, -, movable⟩ := movable_of_checkSetInput hcheck hslot.2
      exact .single (Change.move movable.holds movable.fits movable.apart)
    · exact .refl
  · exact .refl

/-- Setters of optional edges set the slot of their role. -/
theorem change_setOptional (id : NodeId) (type : InputType) (expected : String)
    (input : Option NodeId) :
    MayChange admits g
      ((do let slot ← Edit.ask (·.requireSlotOf id type expected); setInput id slot input).after
        g) := by
  rw [after_setOptional]
  split
  · exact change_setInput _ _ _
  · exact .refl

theorem change_addInput (user input : NodeId) :
    MayChange admits g ((addInput user input).after g) := by
  rw [after_addInput]
  split
  · next hcheck =>
    obtain ⟨node, type, hnode, halive, hvariadic, hserves⟩ := checkAddInput_eq_ok_iff.mp hcheck
    exact .single (Change.append hnode halive hvariadic hserves)
  · exact .refl

theorem change_removeInput (user : NodeId) (slot : Nat) :
    MayChange admits g ((removeInput user slot).after g) := by
  rw [after_removeInput]
  split
  · next hcheck =>
    obtain ⟨node, hnode, halive, htarget, hfixed⟩ := checkRemoveInput_eq_ok_iff.mp hcheck
    exact .single (Change.erase hnode halive htarget hfixed)
  · exact .refl

theorem change_replaceInput (user old new : NodeId) :
    MayChange admits g ((replaceInput user old new).after g) := by
  rw [after_replaceInput]
  split
  · next hcheck =>
    have movable := movable_of_checkReplaceInput hcheck
    exact .single (Change.move movable.holds movable.fits movable.apart)
  · exact .refl

theorem change_replaceAtUsages (b : g.Balanced) (old new : NodeId) :
    MayChange admits g ((replaceAtUsages old new).after g) := by
  rw [after_replaceAtUsages]
  split
  · next hcheck =>
    have movable := b.movable_of_checkReplaceAtUsages hcheck
    exact .single (Change.move movable.holds movable.fits movable.apart)
  · exact .refl

theorem change_replaceAtUsagesOfType (b : g.Balanced) (old : NodeId) (type : InputType)
    (new : Option NodeId) : MayChange admits g ((replaceAtUsagesOfType old type new).after g) := by
  rw [after_replaceAtUsagesOfType]
  split
  · next hcheck =>
    have movable := b.movable_of_checkReplaceAtUsagesOfType hcheck
    exact .single (Change.move movable.holds movable.fits movable.apart)
  · exact .refl

theorem change_delete (id : NodeId) : MayChange admits g ((delete id).after g) := by
  rw [after_delete]
  split
  · next hcheck =>
    obtain ⟨node, hnode, hunused⟩ := checkDelete_eq_ok_iff.mp hcheck
    exact .single (Change.delete hnode hunused)
  · exact .refl

/-- Marks change at a node that exists. -/
theorem change_mark (id : NodeId) (bci : Node → UInt32) (flags : Node → NodeFlags) :
    MayChange admits g
      ((do let _ ← Edit.fetch (·.node? id)
           modify fun g =>
            g.modifyNode id fun node => { node with bci := bci node, flags := flags node } :
        Edit Unit).after g) := by
  rw [after_fetch_modifyNode]
  split
  · exact .single (Change.mark id bci flags)
  · exact .refl

/-- **An operation makes one change, or none**, and it replaces nothing. -/
theorem Operation.mayChange {m : Edit α} (h : Operation admits m) (b : g.Balanced) :
    MayChange admits g (m.after g) := by
  cases h with
  | add admitted => exact change_add (.given admitted)
  | addDetached admitted => exact .single (.allocate admitted)
  | attach id => exact change_attach id
  | parameter | constInt | constNull => exact change_addLeaf _ rfl rfl
  | newInstance | offsetAddress | frameState | nullCheckGuard | returnValue =>
      exact change_addPlain _ _ _ rfl
  | addRead request => exact change_addRead request
  | addWrite request => exact change_addWrite request
  | addCompareAndSwap request => exact change_addCompareAndSwap request
  | setInput user slot input => exact change_setInput user slot input
  | addInput user input => exact change_addInput user input
  | removeInput user slot => exact change_removeInput user slot
  | replaceInput user old new => exact change_replaceInput user old new
  | replaceAtUsages old new => exact change_replaceAtUsages b old new
  | replaceAtUsagesOfType old type new => exact change_replaceAtUsagesOfType b old type new
  | delete id => exact change_delete id
  | setStateAfter | setLastLocationAccess | setGuard => exact change_setOptional _ _ _ _
  | setFlags id flags => exact change_mark id Node.bci fun _ => flags
  | setNodeBci id bci => exact change_mark id (fun _ => bci) Node.flags
  | setBci bci => exact .single (.bci bci)
  | internLocation identity => exact .single (.intern identity)

theorem Operation.changes {m : Edit α} (h : Operation admits m) (b : g.Balanced) :
    Changes admits g (m.after g) :=
  (h.mayChange b).changes

end Graph

/-! ## Runs as changes -/

namespace Graph

variable {admits : Node → Prop} {g g' : Graph}

/-- From a graph that is balanced, changes lead to the other. -/
def Leads (admits : Node → Prop) (g g' : Graph) : Prop := g.Balanced → Changes admits g g'

theorem composes_leads : Composes (Leads admits) where
  refl _ _ := .refl
  trans hgh hhk b := (hgh b).trans (hhk ((hgh b).balanced b))

/-- Taking back is a sequence of deletions. -/
theorem revisions_discardSince (g : Graph) (mark : Nat) :
    Revisions admits g (g.discardSince mark) := by
  unfold discardSince
  generalize (g.ids.drop mark).reverse = ids
  induction ids generalizing g with
  | nil => exact .refl
  | cons id ids ih =>
      refine Relation.ReflTransGen.trans ?_ (ih (g.discard id))
      unfold discard
      split
      · next h =>
        obtain ⟨halive, hunused⟩ := Bool.and_eq_true_iff.mp h
        obtain ⟨node, hnode, hnodeAlive⟩ := isAlive_iff_exists.mp halive
        exact (Change.delete hnode
          (.inr ⟨(NodeState.isAlive_iff _).mp hnodeAlive, List.isEmpty_iff.mp hunused⟩)).revisions
      · exact .refl

theorem changes_retire (id : NodeId) : Changes admits g ((retire id).after g) := by
  rw [after_retire]
  split
  · next hcheck =>
    obtain ⟨halive, hunused⟩ := checkRetire_eq_ok_iff.mp hcheck
    obtain ⟨node, hnode, hnodeAlive⟩ := isAlive_iff_exists.mp halive
    exact (Change.retire hnode hnodeAlive hunused).changes
  · exact .refl

theorem revisions_markLowered (g : Graph) (nodes : List NodeId) :
    Revisions admits g (g.markLowered nodes) := by
  unfold markLowered
  induction nodes generalizing g with
  | nil => exact .refl
  | cons id ids ih =>
      refine Relation.ReflTransGen.trans ?_ (ih _)
      dsimp only
      split
      · exact (Change.mark id Node.bci fun node => { node.flags with lowered := true }).revisions
      · exact .refl

theorem leads_substitute (id : NodeId) (r : Replacement) :
    (substitute id r).Within (Leads admits) := by
  refine within_substitute composes_leads ?_ ?_ ?_ id r
  · exact fun old type new g b => (change_replaceAtUsagesOfType b old type new).changes
  · exact fun id g _ => changes_retire id
  · exact fun g nodes _ => (revisions_markLowered g nodes).changes

/-- **A run is a sequence of changes**, if it begins with a balanced graph. -/
theorem Reaches.changes (h : Reaches admits g g') : Leads admits g g' := by
  have c : Composes (Leads admits) := composes_leads
  have hlower : ∀ {σ : Type} {tool : LoweringTool σ}, (∀ id, (tool id).Within (Leads admits)) →
      ∀ id, (lowerNode tool id).Within (Leads admits) :=
    fun acts id => within_lowerNode c (fun g mark _ => (revisions_discardSince g mark).changes)
      leads_substitute acts id
  induction h with
  | refl => exact c.refl _
  | edit _ operation ih => exact c.trans ih operation.changes
  | lower _ _ id memory ih acts => exact c.trans ih (hlower acts id _ memory)
  | pass _ _ config order memory ih acts =>
      exact c.trans ih (within_runPass c (hlower acts) config order _ memory)

/-- The changes of a run may be looked at where more nodes are admitted. -/
theorem Reaches.leads (h : Reaches admits g g') {admits' : Node → Prop}
    (weaker : ∀ node, admits node → admits' node) (wf : g.WellFormed) : Changes admits' g g' :=
  (h.changes wf.toBalanced).mono weaker

theorem Reaches.wellFormed (h : Reaches admits g g') (built : ∀ node, admits node → node.Built)
    (wf : g.WellFormed) : g'.WellFormed :=
  (h.changes wf.toBalanced).wellFormed built wf

/-- **Every graph that a run leads to is balanced**, whatever nodes are built by hand. -/
theorem Reaches.balanced (h : Reaches admits new g) : g.Balanced :=
  (h.changes balanced_new).balanced balanced_new

/-- **Every graph that a run with built nodes leads to is well formed.** -/
theorem Reachable.wellFormed (h : g.Reachable) : g.WellFormed :=
  Reaches.wellFormed h (fun _ built => built) wellFormed_new

end Graph

end SeaOfNodes
