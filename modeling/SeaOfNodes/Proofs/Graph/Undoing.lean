import SeaOfNodes.Proofs.Graph.Verify

/-!
# Undoing single edits

An edit of a single edge answers what is needed to take it back: setting a slot answers what the
slot held, and a further value that was added is in the last slot, from where it can be removed.

`Graph.EdgeMoved` says that an edit moved one edge and touched no other.  One entry leaves the
usage list of the old target and one enters that of the new target, both of them of the user.  Two
such edits in opposite directions therefore cancel in every usage list, up to order
(`EdgeMoved.usages_perm`); **`Reaches.single_edits_undone`** says that the second is always accepted
and answers what the first was given.

### What is load-bearing

That the way back is accepted needs the invariant.  What a slot held before has been checked when it
was put there, and not since; that it still serves in the role of the slot is `Balanced.placed`.

Order is restored for added values only.  Adding appends to the usage list, and removing takes *the
first* entry of the user, which may be one of an earlier slot; the entry that was appended last then
takes its place, and it is equal to it (`swapRemove_concat_self`).  An edge that is set to another
target and back leaves the user at the end of the list instead of where it was.
-/

namespace SeaOfNodes

namespace Graph

variable {admits : Node → Prop} {g g₁ g₂ : Graph} {user target : NodeId} {slot : Nat}
  {old new : Option NodeId} {node : Node}

/-- **One edge was moved**, from `old` to `new`, in a slot of `user`.  Where one of the two is
absent, the edge is new or is gone. -/
structure EdgeMoved (g : Graph) (user : NodeId) (slot : Nat) (old new : Option NodeId)
    (g' : Graph) : Prop where
  /-- The slot held the old target. -/
  before : g.input user slot = old
  /-- The slot holds the new one. -/
  after : g'.input user slot = new
  /-- The other slots of the user hold what they held. -/
  slots : ∀ i, i ≠ slot → g'.input user i = g.input user i
  /-- Apart from its slots the user does not change. -/
  kept : ∀ {node}, g.node? user = some node →
    ∃ slots, g'.node? user = some { node with slots := slots }
  /-- Nor does any other node. -/
  nodes : ∀ x, x ≠ user → g'.node? x = g.node? x
  /-- The usage lists have moved one entry of the user, and nothing else. -/
  entries : ∀ d x, (g'.usages d).count x + (if old = some d ∧ user = x then 1 else 0) =
    (g.usages d).count x + if new = some d ∧ user = x then 1 else 0
  /-- The usage lists of other nodes do not change. -/
  usages : ∀ d, old ≠ some d → new ≠ some d → g'.usages d = g.usages d
  /-- No node is new, and nothing else has changed. -/
  frame : SameFrame g g'

namespace EdgeMoved

/-- A change of the slots of `user` that is seen in one slot only moves one edge. -/
theorem of_slots {slots : List (Option NodeId)} (hnode : g.node? user = some node)
    (hfind : ∀ x, g₁.node? x = if user = x then some { node with slots := slots } else g.node? x)
    (hold : node.input slot = old)
    (hslots : ∀ i, { node with slots := slots }.input i =
      if slot = i then new else node.input i)
    (entries : ∀ d x, (g₁.usages d).count x + (if old = some d ∧ user = x then 1 else 0) =
      (g.usages d).count x + if new = some d ∧ user = x then 1 else 0)
    (usages : ∀ d, old ≠ some d → new ≠ some d → g₁.usages d = g.usages d)
    (frame : SameFrame g g₁) : EdgeMoved g user slot old new g₁ where
  before := by rw [input, hnode, Option.bind_some, hold]
  after := by rw [input, hfind, if_pos rfl, Option.bind_some, hslots, if_pos rfl]
  slots i hi := by
    rw [input, input, hfind, if_pos rfl, hnode, Option.bind_some, Option.bind_some, hslots,
      if_neg hi.symm]
  kept {found} hfound := by
    cases hnode.symm.trans hfound
    exact ⟨slots, by rw [hfind, if_pos rfl]⟩
  nodes x hx := by rw [hfind, if_neg hx.symm]
  entries := entries
  usages := usages
  frame := frame

/-- An edge that is moved to where it was. -/
theorem same (h : g.input user slot = old) : EdgeMoved g user slot old old g where
  before := h
  after := h
  slots _ _ := rfl
  kept {node} hnode := ⟨node.slots, hnode⟩
  nodes _ _ := rfl
  entries _ _ := rfl
  usages _ _ _ := rfl
  frame := .refl g

/-- There and back, up to order. -/
theorem usages_perm (there : EdgeMoved g user slot old new g₁)
    (back : EdgeMoved g₁ user slot new old g₂) (d : NodeId) : (g₂.usages d).Perm (g.usages d) := by
  rw [List.perm_iff_count]
  intro x
  have hthere := there.entries d x
  have hback := back.entries d x
  omega

end EdgeMoved

/-! ## Setting a slot -/

theorem run_setInput_eq_ok_iff :
    (setInput user slot new).run g = .ok old g₁ ↔
      ∃ node, g.checkSetInput user slot new = .ok node ∧ node.input slot = old ∧
        (old = new ∧ g = g₁ ∨
          old ≠ new ∧ slot < node.slots.length ∧ g.relink user slot old new = g₁) := by
  rw [run_setInput]
  cases g.checkSetInput user slot new with
  | error => simp
  | ok node =>
      simp only [Except.ok.injEq, exists_eq_left']
      by_cases hsame : node.input slot = new
      · rw [if_pos hsame, EStateM.Result.ok.injEq]
        refine and_congr_right ?_
        rintro rfl
        simp [hsame]
      · rw [if_neg hsame]
        by_cases hslot : slot < node.slots.length
        · rw [if_pos hslot, EStateM.Result.ok.injEq]
          refine and_congr_right ?_
          rintro rfl
          simp [hsame, hslot]
        · rw [if_neg hslot]
          simp only [hslot, false_and, and_false, or_false, reduceCtorEq, false_iff]
          rintro ⟨rfl, he, -⟩
          exact hsame he

/-- The user of a slot that is set. -/
theorem node?_relink_user (hnode : g.node? user = some node) :
    (g.relink user slot old new).node? user =
      some { node with slots := node.slots.set slot new } := by
  rw [node?_relink, if_pos rfl, hnode]
  rfl

theorem Balanced.edgeMoved_relink (b : g.Balanced) (hnode : g.node? user = some node)
    (halive : node.isAlive = true) (hslot : slot < node.slots.length)
    (hold : node.input slot = old) :
    EdgeMoved g user slot old new (g.relink user slot old new) := by
  obtain ⟨info, hinfo, -⟩ := (b.placed hnode).slotsFit halive slot hslot
  have holds : g.Holds ⟨user, slot, info⟩ old := ⟨node, hnode, halive, hslot, hold, hinfo⟩
  exact .of_slots hnode (node?_of_modify hnode fun x => g.node?_relink x user slot old new) hold
    (input_set hslot) (b.count_usages_relink holds new)
    (fun d hold hnew => usages_relink_of_ne g d user slot hold hnew) (sameFrame_relink ..)

/-- What a slot held can be put back. -/
theorem Balanced.checkSetInput_back (b : g.Balanced)
    (hcheck : g.checkSetInput user slot new = .ok node) (hslot : slot < node.slots.length) :
    (g.relink user slot (node.input slot) new).checkSetInput user slot (node.input slot) =
      .ok { node with slots := node.slots.set slot new } := by
  obtain ⟨hnode, halive, info, hinfo, -⟩ := checkSetInput_eq_ok_iff.mp hcheck
  obtain ⟨found, hfound, hfits⟩ := (b.placed hnode).slotsFit halive slot hslot
  cases hinfo.symm.trans hfound
  rw [checkSetInput_eq_ok_iff]
  refine ⟨node?_relink_user hnode, halive, info, ?_, hfits.mono fun d type _ => Serves.relink⟩
  exact (slotInfo_slots (by simp)).trans hinfo

/-- Setting a slot twice leaves what was set last. -/
theorem node?_relink_back (hnode : g.node? user = some node) (hslot : slot < node.slots.length)
    (x : NodeId) :
    ((g.relink user slot (node.input slot) new).relink user slot new (node.input slot)).node? x =
      g.node? x := by
  have hinput : node.input slot = node.slots[slot] := by
    simp [Node.input, List.getElem?_eq_getElem hslot]
  rw [node?_relink, node?_relink]
  split
  · next he =>
    subst he
    rw [hnode, Option.map_some, Option.map_some, List.set_set, hinput, List.set_getElem_self]
  · rfl

/-- **A slot that was set can be set back.** -/
theorem Balanced.setInput_undone (b : g.Balanced)
    (hrun : (setInput user slot new).run g = .ok old g₁) :
    EdgeMoved g user slot old new g₁ ∧
      ∃ g₂, (setInput user slot old).run g₁ = .ok new g₂ ∧ EdgeMoved g₁ user slot new old g₂ ∧
        ∀ x, g₂.node? x = g.node? x := by
  obtain ⟨node, hcheck, rfl, ⟨rfl, rfl⟩ | ⟨hne, hslot, rfl⟩⟩ := run_setInput_eq_ok_iff.mp hrun
  · obtain ⟨hnode, -⟩ := checkSetInput_eq_ok_iff.mp hcheck
    have hsame : EdgeMoved g user slot (node.input slot) (node.input slot) g :=
      .same (by rw [input, hnode, Option.bind_some])
    exact ⟨hsame, g, hrun, hsame, fun _ => rfl⟩
  · obtain ⟨hnode, halive, info, hinfo, hfits⟩ := checkSetInput_eq_ok_iff.mp hcheck
    have hnode₁ : (g.relink user slot (node.input slot) new).node? user =
        some { node with slots := node.slots.set slot new } := node?_relink_user hnode
    have hinput₁ : { node with slots := node.slots.set slot new }.input slot = new := by
      rw [input_set hslot, if_pos rfl]
    have hslot₁ : slot < { node with slots := node.slots.set slot new }.slots.length := by
      simpa using hslot
    have b₁ := b.relink hnode halive hslot hinfo hfits
    refine ⟨b.edgeMoved_relink hnode halive hslot rfl, _, run_setInput_eq_ok_iff.mpr
      ⟨_, b.checkSetInput_back hcheck hslot, hinput₁, .inr ⟨hne.symm, hslot₁, rfl⟩⟩,
      b₁.edgeMoved_relink hnode₁ halive hslot₁ hinput₁, node?_relink_back hnode hslot⟩

/-! ## Adding a value -/

/-- The graph after `target` was appended to the values of `user`. -/
def appended (g : Graph) (user target : NodeId) : Graph :=
  (g.modifyNode user fun node => { node with slots := node.slots ++ [some target] }).addUse
    target user

/-- The graph after a slot of `user` that held `target` was erased. -/
def erased (g : Graph) (user : NodeId) (slot : Nat) (target : NodeId) : Graph :=
  (g.modifyNode user fun node => { node with slots := node.slots.eraseIdx slot }).dropUse
    target user

theorem run_addInput_eq_ok_iff :
    (addInput user target).run g = .ok () g₁ ↔
      g.checkAddInput user target = .ok () ∧ g.appended user target = g₁ := by
  rw [run_addInput]
  cases g.checkAddInput user target <;> simp [appended]

theorem run_removeInput_of_check (h : g.checkRemoveInput user slot = .ok target) :
    (removeInput user slot).run g = .ok target (g.erased user slot target) := by
  rw [run_removeInput, h]
  rfl

theorem node?_appended (hnode : g.node? user = some node) (x : NodeId) :
    (g.appended user target).node? x =
      if user = x then some { node with slots := node.slots ++ [some target] } else g.node? x :=
  node?_of_modify hnode
    (fun x => (node?_addUse _ x target user).trans (g.node?_modifyNode user x _)) x

theorem node?_erased (hnode : g.node? user = some node) (x : NodeId) :
    (g.erased user slot target).node? x =
      if user = x then some { node with slots := node.slots.eraseIdx slot } else g.node? x :=
  node?_of_modify hnode
    (fun x => (node?_dropUse _ x target user).trans (g.node?_modifyNode user x _)) x

theorem usages_appended (d : NodeId) : (g.appended user target).usages d =
    if target = d then g.usages d ++ [user] else g.usages d :=
  usages_addUse _ d target user

theorem usages_erased (d : NodeId) : (g.erased user slot target).usages d =
    if target = d then swapRemove user (g.usages d) else g.usages d :=
  usages_dropUse _ d target user

theorem eraseIdx_concat_self {α : Type} (xs : List α) (x : α) :
    (xs ++ [x]).eraseIdx xs.length = xs := by
  rw [List.eraseIdx_append_of_length_le (Nat.le_refl _), Nat.sub_self]
  simp

theorem input_concat {slots : List (Option NodeId)} (i : Nat) :
    { node with slots := slots ++ [new] }.input i =
      if slots.length = i then new else { node with slots := slots }.input i := by
  simp only [Node.input, List.getElem?_append]
  split
  · next h => rw [if_neg (Nat.ne_of_gt h)]
  · next h =>
    split
    · next he => simp [he]
    · next hne =>
      rw [List.getElem?_eq_none (by simp; omega), List.getElem?_eq_none (Nat.le_of_not_lt h)]

/-- A further value is an edge more, in a slot of its own. -/
theorem edgeMoved_appended (hnode : g.node? user = some node) :
    EdgeMoved g user node.slots.length none (some target) (g.appended user target) := by
  refine .of_slots hnode (node?_appended hnode) (input_of_length_le (Nat.le_refl _)) input_concat
    (fun d x => ?_) (fun d _ hnew => ?_)
    ((g.sameFrame_modifyNode user _).trans (sameFrame_addUse _ target user))
  · rw [usages_appended]
    by_cases hd : target = d <;> by_cases hx : user = x <;> simp [hd, hx]
  · rw [usages_appended, if_neg fun he => hnew (congrArg some he)]

/-- Erasing the last slot takes its edge away, and no other slot is moved. -/
theorem Balanced.edgeMoved_erased (b : g.Balanced) {slots : List (Option NodeId)}
    (hnode : g.node? user = some { node with slots := slots ++ [some target] })
    (halive : node.isAlive = true) :
    EdgeMoved g user slots.length (some target) none (g.erased user slots.length target) := by
  have hinput : { node with slots := slots ++ [some target] }.input slots.length = some target := by
    rw [input_concat, if_pos rfl]
  refine .of_slots hnode (node?_erased hnode) hinput (fun i => ?_)
    (fun d x => ?_) (fun d hold _ => ?_)
    ((g.sameFrame_modifyNode user _).trans (sameFrame_dropUse _ target user))
  · dsimp only
    rw [eraseIdx_concat_self, input_concat]
    split
    · next he => exact input_of_length_le (Nat.le_of_eq he)
    · rfl
  · have hpos := b.count_usages_pos_of_input hnode halive hinput
    rw [usages_erased]
    by_cases hd : target = d
    · by_cases hx : user = x
      · subst hd hx
        simp only [if_true, count_swapRemove, and_self, reduceCtorEq, false_and, if_false]
        omega
      · simp [hd, hx, count_swapRemove]
    · simp [hd]
  · rw [usages_erased, if_neg fun he => hold (congrArg some he)]

/-- **A value that was added can be removed**, and the usage lists are as they were before, in their
order. -/
theorem Balanced.addInput_undone (b : g.Balanced)
    (hrun : (addInput user target).run g = .ok () g₁) :
    ∃ node, g.node? user = some node ∧
      g₁.node? user = some { node with slots := node.slots ++ [some target] } ∧
      EdgeMoved g user node.slots.length none (some target) g₁ ∧
      ∃ g₂, (removeInput user node.slots.length).run g₁ = .ok target g₂ ∧
        EdgeMoved g₁ user node.slots.length (some target) none g₂ ∧
        (∀ x, g₂.node? x = g.node? x) ∧ ∀ d, g₂.usages d = g.usages d := by
  obtain ⟨hcheck, rfl⟩ := run_addInput_eq_ok_iff.mp hrun
  obtain ⟨node, type, hnode, halive, hvariadic, hserves⟩ := checkAddInput_eq_ok_iff.mp hcheck
  have hnode₁ : (g.appended user target).node? user =
      some { node with slots := node.slots ++ [some target] } := by
    rw [node?_appended hnode, if_pos rfl]
  have hback : (g.appended user target).checkRemoveInput user node.slots.length = .ok target := by
    rw [checkRemoveInput_eq_ok_iff]
    refine ⟨_, hnode₁, halive, by simp [Node.input], ?_⟩
    rw [NodeKind.layout_of_variadic hvariadic]
    exact Nat.zero_le _
  have b₁ : (g.appended user target).Balanced := b.append hnode halive hvariadic hserves
  refine ⟨node, hnode, hnode₁, edgeMoved_appended hnode, _, run_removeInput_of_check hback,
    b₁.edgeMoved_erased hnode₁ halive, fun x => ?_, fun d => ?_⟩
  · rw [node?_erased hnode₁, node?_appended hnode]
    split
    · next he =>
      subst he
      rw [hnode]
      simp only [eraseIdx_concat_self]
    · rfl
  · rw [usages_erased, usages_appended]
    split
    · exact swapRemove_concat_self user (g.usages d)
    · rfl

/-! ## The way back -/

/-- **Single edits can be undone.**  In every graph that a run leads to:

* a slot that was set can be set to what it held, and answers what it was set to; then every node is
  as it was, and every usage list up to order;
* a value that was added is in the last slot, and can be removed from there; then every node is as
  it was, and every usage list with its order;
* on the way there and on the way back one edge is moved, and nothing else is touched. -/
theorem Reaches.single_edits_undone (reached : Reaches admits Graph.new g) (user : NodeId) :
    (∀ slot input old g₁, (setInput user slot input).run g = .ok old g₁ →
      EdgeMoved g user slot old input g₁ ∧
      ∃ g₂, (setInput user slot old).run g₁ = .ok input g₂ ∧ EdgeMoved g₁ user slot input old g₂ ∧
        (∀ x, g₂.node? x = g.node? x) ∧ ∀ d, (g₂.usages d).Perm (g.usages d)) ∧
    ∀ target g₁, (addInput user target).run g = .ok () g₁ →
      ∃ node, g.node? user = some node ∧
        g₁.node? user = some { node with slots := node.slots ++ [some target] } ∧
        EdgeMoved g user node.slots.length none (some target) g₁ ∧
        ∃ g₂, (removeInput user node.slots.length).run g₁ = .ok target g₂ ∧
          EdgeMoved g₁ user node.slots.length (some target) none g₂ ∧
          (∀ x, g₂.node? x = g.node? x) ∧ ∀ d, g₂.usages d = g.usages d := by
  have b := reached.balanced
  refine ⟨fun slot input old g₁ hrun => ?_, fun target g₁ hrun => b.addInput_undone hrun⟩
  obtain ⟨there, g₂, hback, back, hnodes⟩ := b.setInput_undone hrun
  exact ⟨there, g₂, hback, back, hnodes, there.usages_perm back⟩

/-- `storeThenLoad` with a frame state that captures the stored constant twice. -/
def capturedTwice : Graph := (frameState 0 [⟨4⟩, ⟨4⟩]).after storeThenLoad

/-- The stored value is set to the offset and back, and the constant is captured a third time and
removed.  The entry that is removed is that of the first capture. -/
theorem single_edits_undone_capturedTwice :
    (∃ g₁ g₂, (setInput ⟨5⟩ 2 (some ⟨2⟩)).run capturedTwice = .ok (some ⟨4⟩) g₁ ∧
      (setInput ⟨5⟩ 2 (some ⟨4⟩)).run g₁ = .ok (some ⟨2⟩) g₂ ∧
      g₂.input ⟨5⟩ 2 = some ⟨4⟩ ∧ (g₂.usages ⟨4⟩).Perm [⟨5⟩, ⟨8⟩, ⟨8⟩]) ∧
    ∃ g₁ g₂, (addInput ⟨8⟩ ⟨4⟩).run capturedTwice = .ok () g₁ ∧
      g₁.input ⟨8⟩ 2 = some ⟨4⟩ ∧ (removeInput ⟨8⟩ 2).run g₁ = .ok ⟨4⟩ g₂ ∧
      g₂.usages ⟨4⟩ = [⟨5⟩, ⟨8⟩, ⟨8⟩] := by
  have reached : Reaches Node.Built Graph.new capturedTwice :=
    .edit reachable_storeThenLoad (.frameState _ _)
  have husages : capturedTwice.usages ⟨4⟩ = [⟨5⟩, ⟨8⟩, ⟨8⟩] := by decide +kernel
  constructor
  · obtain ⟨store, hstore, halive, hvalue, hslot, hinfo⟩ : ∃ store,
        capturedTwice.node? ⟨5⟩ = some store ∧ store.isAlive = true ∧
          store.input 2 = some ⟨4⟩ ∧ 2 < store.slots.length ∧
          store.slotInfo 2 = some (.required "value" .value) := ⟨_, rfl, by decide +kernel⟩
    have hcheck : capturedTwice.checkSetInput ⟨5⟩ 2 (some ⟨2⟩) = .ok store :=
      checkSetInput_eq_ok_iff.mpr
        ⟨hstore, halive, _, hinfo, serves_iff.mpr (by decide +kernel)⟩
    have hrun := run_setInput_eq_ok_iff.mpr
      ⟨store, hcheck, hvalue, .inr ⟨by decide, hslot, rfl⟩⟩
    obtain ⟨-, g₂, hback, back, -, hperm⟩ :=
      (Reaches.single_edits_undone reached ⟨5⟩).1 2 (some ⟨2⟩) (some ⟨4⟩) _ hrun
    exact ⟨_, g₂, hrun, hback, back.after, husages ▸ hperm ⟨4⟩⟩
  · obtain ⟨state, hstate, halive, hvariadic, hlength⟩ : ∃ state,
        capturedTwice.node? ⟨8⟩ = some state ∧ state.isAlive = true ∧
          state.kind.variadic = some .value ∧ state.slots.length = 2 :=
      ⟨_, rfl, by decide +kernel⟩
    have hcheck : capturedTwice.checkAddInput ⟨8⟩ ⟨4⟩ = .ok () :=
      checkAddInput_eq_ok_iff.mpr
        ⟨state, .value, hstate, halive, hvariadic, serves_iff.mpr (by decide +kernel)⟩
    have hrun := run_addInput_eq_ok_iff.mpr ⟨hcheck, rfl⟩
    obtain ⟨found, hfound, -, there, g₂, hback, -, -, hsame⟩ :=
      (Reaches.single_edits_undone reached ⟨8⟩).2 ⟨4⟩ _ hrun
    cases hstate.symm.trans hfound
    rw [hlength] at there hback
    exact ⟨_, g₂, hrun, there.after, hback, (hsame ⟨4⟩).trans husages⟩

/-- There and back the entry of the store goes to the end. -/
example :
    ((capturedTwice.relink ⟨5⟩ 2 (some ⟨4⟩) (some ⟨2⟩)).relink ⟨5⟩ 2 (some ⟨2⟩)
      (some ⟨4⟩)).usages ⟨4⟩ = [⟨8⟩, ⟨8⟩, ⟨5⟩] := by decide +kernel

end Graph

end SeaOfNodes
