import Mathlib.Data.List.Nodup
import Mathlib.Data.List.Pairwise
import Mathlib.Logic.Equiv.Defs
import SeaOfNodes.Proofs.Lowering.Along

/-!
# Relocation

When the nodes of a schedule are lowered in another order, their expansions are allocated at other
ids.  `Lowered.relocation` is the permutation of ids that takes the new nodes of one run to those of
the other: the `j`-th new node for an access goes to the `j`-th new node for the same access, and no
other id moves.

Everything about the second run is the relocation of the same thing about the first: the plans
(`Lowered.plan_relocate`), and what takes the place of a node (`Lowered.successor_relocate`).
-/

namespace SeaOfNodes

namespace Placement

/-- Where a new node of one placement is in another. -/
def relocate (p q : Placement) (ids : List NodeId) (x : NodeId) : NodeId :=
  match ids.find? fun id => x ∈ p.block id with
  | some id => (q.base id).advance (x.index - (p.base id).index)
  | none => x

theorem relocate_of_notMem {p : Placement} {ids : List NodeId} {x : NodeId}
    (h : x ∉ ids.flatMap p.block) (q : Placement) : p.relocate q ids x = x := by
  have hnone : (ids.find? fun id => x ∈ p.block id) = none := by
    rw [List.find?_eq_none]
    intro id hid hx
    exact h (List.mem_flatMap.mpr ⟨id, hid, of_decide_eq_true hx⟩)
  unfold relocate
  rw [hnone]

end Placement

namespace Graph

variable {g g₁ g₂ : Graph} {config : LoweringConfig} {ids ids₁ ids₂ : List NodeId}
  {p p₁ p₂ : Placement} {id x : NodeId} {node : Node}

namespace Lowered

/-- No new node belongs to two expansions. -/
theorem eq_of_mem_block (h : Lowered config g ids p g₁) {other : NodeId} (hid : id ∈ ids)
    (hother : other ∈ ids) (hx : x ∈ p.block id) (hx' : x ∈ p.block other) : id = other := by
  have hspan : (ids.flatMap p.block).Nodup := by
    rw [← h.allocated]
    refine List.Pairwise.map _ (fun i j hne he => hne ?_) List.nodup_range
    exact Nat.add_left_cancel (congrArg ArenaId.index he)
  have hdisjoint := (List.nodup_flatMap.mp hspan).2
  by_contra hne
  have hsymm : Std.Symm (Function.onFun List.Disjoint p.block) :=
    ⟨fun _ _ hd => List.disjoint_symm hd⟩
  exact hdisjoint.forall hid hother hne hx hx'

/-- The `j`-th new node for a node goes to the `j`-th new node for it. -/
theorem relocate_advance (h : Lowered config g ids p g₁) (q : Placement) (hid : id ∈ ids) {j : Nat}
    (hj : j < (p.plan id).size) :
    p.relocate q ids ((p.base id).advance j) = (q.base id).advance j := by
  have hblock : (p.base id).advance j ∈ p.block id :=
    (ArenaId.mem_span _).mpr ⟨Nat.le_add_right _ _, Nat.add_lt_add_left hj _⟩
  have hfound : (ids.find? fun other => (p.base id).advance j ∈ p.block other) = some id := by
    have hsome : (ids.find? fun other => (p.base id).advance j ∈ p.block other).isSome = true :=
      List.find?_isSome.mpr ⟨id, hid, decide_eq_true hblock⟩
    obtain ⟨other, hother⟩ := Option.isSome_iff_exists.mp hsome
    have hdecided := List.find?_some hother
    have hmem : (p.base id).advance j ∈ p.block other := of_decide_eq_true hdecided
    rw [hother, h.eq_of_mem_block hid (List.mem_of_find?_eq_some hother) hblock hmem]
  unfold Placement.relocate
  rw [hfound]
  exact congrArg (q.base id).advance (Nat.add_sub_cancel_left _ _)

/-- How many new nodes there are for a node depends on its kind. -/
theorem size_plan (h : Lowered config g ids p g₁) (hid : id ∈ ids)
    (hnode : g.node? id = some node) :
    (p.plan id).size = (config.expansionKinds g.locations node.kind).length := by
  have hkinds := LoweringConfig.kinds_nodes (h.planned id hid) (h.liveNode?_of_mem hid hnode)
    (p.base id)
  rw [← hkinds, List.length_map, Plan.length_nodes]

/-- Both runs expand a node to equally many nodes. -/
theorem size_plan_eq (h₁ : Lowered config g ids₁ p₁ g₁) (h₂ : Lowered config g ids₂ p₂ g₂)
    (hid₁ : id ∈ ids₁) (hid₂ : id ∈ ids₂) : (p₁.plan id).size = (p₂.plan id).size := by
  obtain ⟨node, hnode, -⟩ := isLowerable_iff.mp (h₁.lowerable id hid₁)
  rw [h₁.size_plan hid₁ hnode, h₂.size_plan hid₂ hnode]

/-- New nodes stay new. -/
theorem relocate_mem (h₁ : Lowered config g ids₁ p₁ g₁) (h₂ : Lowered config g ids₂ p₂ g₂)
    (hperm : ids₁.Perm ids₂) (hx : x ∈ ids₁.flatMap p₁.block) :
    p₁.relocate p₂ ids₁ x ∈ ids₂.flatMap p₂.block := by
  obtain ⟨id, hid, hmem⟩ := List.mem_flatMap.mp hx
  obtain ⟨j, hj, rfl⟩ := List.mem_map.mp hmem
  have hj := List.mem_range.mp hj
  rw [h₁.relocate_advance p₂ hid hj]
  exact Placement.mem_block_advance (hperm.mem_iff.mp hid)
    (h₁.size_plan_eq h₂ hid (hperm.mem_iff.mp hid) ▸ hj)

/-- Both runs allocate equally many nodes. -/
theorem size_eq (h₁ : Lowered config g ids₁ p₁ g₁) (h₂ : Lowered config g ids₂ p₂ g₂)
    (hperm : ids₁.Perm ids₂) : g₂.size = g₁.size := by
  have hlength : (ids₁.flatMap p₁.block).length = (ids₂.flatMap p₂.block).length := by
    rw [← (hperm.flatMap_right p₂.block).length_eq, List.length_flatMap, List.length_flatMap]
    refine congrArg List.sum (List.map_congr_left ?_)
    intro id hid
    rw [Placement.block, Placement.block, ArenaId.length_span, ArenaId.length_span,
      h₁.size_plan_eq h₂ hid (hperm.mem_iff.mp hid)]
  rw [h₁.size, h₂.size, hlength]

/-- Going there and back. -/
theorem relocate_relocate (h₁ : Lowered config g ids₁ p₁ g₁) (h₂ : Lowered config g ids₂ p₂ g₂)
    (hperm : ids₁.Perm ids₂) (x : NodeId) :
    p₂.relocate p₁ ids₂ (p₁.relocate p₂ ids₁ x) = x := by
  by_cases hx : x ∈ ids₁.flatMap p₁.block
  · obtain ⟨id, hid, hmem⟩ := List.mem_flatMap.mp hx
    obtain ⟨j, hj, rfl⟩ := List.mem_map.mp hmem
    have hj := List.mem_range.mp hj
    have hid₂ := hperm.mem_iff.mp hid
    rw [h₁.relocate_advance p₂ hid hj,
      h₂.relocate_advance p₁ hid₂ (h₁.size_plan_eq h₂ hid hid₂ ▸ hj)]
  · have hx₂ : x ∉ ids₂.flatMap p₂.block := by
      rwa [h₂.mem_blocks_iff, h₁.size_eq h₂ hperm, ← h₁.mem_blocks_iff]
    rw [Placement.relocate_of_notMem hx, Placement.relocate_of_notMem hx₂]

/-- **The relocation of one run to another.** -/
def relocation (h₁ : Lowered config g ids₁ p₁ g₁) (h₂ : Lowered config g ids₂ p₂ g₂)
    (hperm : ids₁.Perm ids₂) : Equiv.Perm NodeId where
  toFun := p₁.relocate p₂ ids₁
  invFun := p₂.relocate p₁ ids₂
  left_inv := h₁.relocate_relocate h₂ hperm
  right_inv := h₂.relocate_relocate h₁ hperm.symm

variable (h₁ : Lowered config g ids₁ p₁ g₁) (h₂ : Lowered config g ids₂ p₂ g₂)
  (hperm : ids₁.Perm ids₂)

/-- The old ids stay where they are. -/
theorem relocation_of_lt (hx : x.index < g.size) : h₁.relocation h₂ hperm x = x := by
  refine Placement.relocate_of_notMem ?_ p₂
  intro hmem
  exact Nat.not_le.mpr hx (h₁.mem_blocks_iff.mp hmem).1

/-- So do the ids that neither run allocated. -/
theorem relocation_of_size_le (hx : g₁.size ≤ x.index) : h₁.relocation h₂ hperm x = x := by
  refine Placement.relocate_of_notMem ?_ p₂
  intro hmem
  exact Nat.not_le.mpr (h₁.mem_blocks_iff.mp hmem).2 hx

theorem relocation_advance (hid : id ∈ ids₁) {j : Nat} (hj : j < (p₁.plan id).size) :
    h₁.relocation h₂ hperm ((p₁.base id).advance j) = (p₂.base id).advance j :=
  h₁.relocate_advance p₂ hid hj

end Lowered

/-! ## What holds old ids only -/

/-- A renaming that keeps the ids of a graph keeps its nodes. -/
theorem WellFormed.redirect_of_fixes (wf : g.WellFormed) {f : NodeId → NodeId}
    (hf : ∀ x : NodeId, x.index < g.size → f x = x) (hnode : g.node? id = some node) :
    node.redirect (fun _ => f) = node := by
  unfold Node.redirect
  split
  · next halive =>
    refine Node.rename_eq_self fun slot info d hinfo hinput => hf d ?_
    obtain ⟨_, -, found, hfound, -⟩ := wf.serves_of_input hnode halive hinput
    exact lt_size_of_node? hfound
  · rfl

theorem WellFormed.map_redirect_of_fixes (wf : g.WellFormed) {f : NodeId → NodeId}
    (hf : ∀ x : NodeId, x.index < g.size → f x = x) (x : NodeId) :
    (g.node? x).map (Node.redirect fun _ => f) = g.node? x := by
  cases hnode : g.node? x with
  | none => rfl
  | some node => exact congrArg some (wf.redirect_of_fixes hf hnode)

namespace Lowered

variable (h₁ : Lowered config g ids₁ p₁ g₁) (h₂ : Lowered config g ids₂ p₂ g₂)
  (hperm : ids₁.Perm ids₂)

/-- **The plans of the second run are those of the first, relocated.** -/
theorem plan_relocate (wf : g.WellFormed) (hid : id ∈ ids₁) :
    p₂.plan id = (p₁.plan id).rename fun _ => h₁.relocation h₂ hperm := by
  have hfixes : ∀ x : NodeId, x.index < g.size → h₁.relocation h₂ hperm x = x :=
    fun x => h₁.relocation_of_lt h₂ hperm
  have hnode : ∀ x, g.node? x = (g.node? x).map (Node.redirect fun _ => h₁.relocation h₂ hperm) :=
    fun x => (wf.map_redirect_of_fixes hfixes x).symm
  have hbase : h₁.relocation h₂ hperm (p₁.base id) = p₂.base id :=
    h₁.relocation_advance h₂ hperm hid (p₁.plan id).size_pos
  -- the graph before the runs, seen as its own image under the relocation
  have hplan := wf.planOf_redirect config (h₁.lowerable id hid) rfl (hnode id)
    (fun address found hfound _ => ⟨hfixes address (lt_size_of_node? hfound), hnode address⟩)
    fun _ => hbase
  rw [h₂.planned id (hperm.mem_iff.mp hid), h₁.planned id hid, Option.map_some] at hplan
  exact Option.some.inj hplan

/-- **What takes the place of a node in the second run is what does in the first, relocated.** -/
theorem successor_relocate (wf : g.WellFormed) (type : InputType) (d : NodeId) :
    p₂.successor ids₂ type (h₁.relocation h₂ hperm d) =
      h₁.relocation h₂ hperm (p₁.successor ids₁ type d) := by
  by_cases hd : d ∈ ids₁
  · rw [h₁.relocation_of_lt h₂ hperm (h₁.lt_size hd), Placement.successor,
      if_pos (hperm.mem_iff.mp hd), h₁.plan_relocate h₂ hperm wf hd, Plan.offset_rename,
      Placement.successor, if_pos hd]
    cases hoffset : (p₁.plan d).offset type with
    | none => exact (h₁.relocation_of_lt h₂ hperm (h₁.lt_size hd)).symm
    | some j => exact (h₁.relocation_advance h₂ hperm hd (Plan.offset_lt hoffset)).symm
  · -- nothing is lowered that is new, and nothing old is moved
    have hmoved : h₁.relocation h₂ hperm d ∉ ids₂ := by
      by_cases hx : d ∈ ids₁.flatMap p₁.block
      · have hnew := (h₂.mem_blocks_iff.mp (h₁.relocate_mem h₂ hperm hx)).1
        exact fun hmem => Nat.not_lt.mpr hnew (h₂.lt_size hmem)
      · have hfixed : h₁.relocation h₂ hperm d = d := Placement.relocate_of_notMem hx p₂
        rwa [hfixed, ← hperm.mem_iff]
    rw [Placement.successor_of_notMem hd, Placement.successor_of_notMem hmoved]

end Lowered

end Graph

end SeaOfNodes
