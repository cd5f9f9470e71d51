import SeaOfNodes.Proofs.Graph.WellFormed

/-!
# The slots that hold a node

Bulk edits collect the slots that hold a node and move them one after the other.  For this the
collection must be exact: `mem_usageSites_iff` says that it holds the slots of attached nodes that
hold the target and no others, and `usageSites_distinct` that it holds none twice.

Moving the collected slots is then seen as a write of each of them (`node?_relinkAll`), and keeps
the invariant as long as the slots are distinct and the new target fits all of them
(`Balanced.relinkAll`): a slot that has still to be moved is not touched by the moves before it.
In the usage lists every moved slot takes its entry with it (`Balanced.count_usages_relinkAll`).
-/

namespace SeaOfNodes

/-- Whether two slots are different ones. -/
def UseSite.Apart (a b : UseSite) : Prop := a.user ≠ b.user ∨ a.slot ≠ b.slot

theorem nodup_eraseDups {α : Type} [BEq α] [LawfulBEq α] (xs : List α) : xs.eraseDups.Nodup := by
  induction hn : xs.length using Nat.strongRecOn generalizing xs with
  | ind n ih =>
      cases xs with
      | nil => exact List.nodup_nil
      | cons x xs =>
          rw [List.eraseDups_cons, List.nodup_cons]
          refine ⟨?_, ih _ ?_ _ rfl⟩
          · simp
          · rw [← hn, List.length_cons]
            exact Nat.lt_succ_of_le (List.length_filter_le _ xs)

/-- Entries that are repeated block by block, in blocks of different entries, occur as often as
their block is long. -/
theorem count_flatMap_replicate {α : Type} [DecidableEq α] {xs : List α} (hnodup : xs.Nodup)
    (n : α → Nat) (x : α) :
    (xs.flatMap fun y => List.replicate (n y) y).count x = if x ∈ xs then n x else 0 := by
  induction xs with
  | nil => rfl
  | cons y ys ih =>
      obtain ⟨hy, hys⟩ := List.nodup_cons.mp hnodup
      rw [List.flatMap_cons, List.count_append, ih hys, List.count_replicate]
      by_cases h : y = x
      · subst h
        simp [hy]
      · simp [h, Ne.symm h]

namespace Node

variable {node : Node} {target : NodeId} {slot : Nat} {info : SlotInfo}

theorem mem_slotsHolding_iff :
    (slot, info) ∈ node.slotsHolding target ↔
      node.input slot = some target ∧ node.slotInfo slot = some info := by
  rw [slotsHolding, List.mem_filterMap]
  constructor
  · rintro ⟨s, -, h⟩
    split at h
    · next hs =>
      obtain ⟨i, hi, he⟩ := Option.map_eq_some_iff.mp h
      cases he
      exact ⟨hs, hi⟩
    · cases h
  · rintro ⟨hs, hi⟩
    refine ⟨slot, List.mem_range.mpr (Graph.lt_length_of_input hs), ?_⟩
    rw [if_pos hs, hi]
    rfl

/-- The slots of one node are listed in order. -/
theorem slotsHolding_sorted (node : Node) (target : NodeId) :
    (node.slotsHolding target).Pairwise fun a b => a.1 < b.1 := by
  refine List.Pairwise.filterMap _ ?_ List.pairwise_lt_range
  intro i j hij a ha b hb
  have hfst : ∀ {s : Nat} {c : Nat × SlotInfo},
      (if node.input s = some target then (node.slotInfo s).map (s, ·) else none) = some c →
        c.1 = s := by
    intro s c h
    split at h
    · obtain ⟨_, -, rfl⟩ := Option.map_eq_some_iff.mp h
      rfl
    · cases h
  rw [hfst ha, hfst hb]
  exact hij

/-- Of a node whose slots are all described, as many slots are listed as hold the target. -/
theorem length_slotsHolding (target : NodeId)
    (hdescribed : ∀ slot < node.slots.length, (node.slotInfo slot).isSome = true) :
    (node.slotsHolding target).length = node.slots.count (some target) := by
  have hslots : (List.range node.slots.length).map node.input = node.slots := by
    refine List.ext_getElem (by simp) fun slot _ hslot => ?_
    simp [Node.input, List.getElem?_eq_getElem hslot]
  rw [slotsHolding, List.length_filterMap_eq_countP, ← hslots, List.count, List.countP_map, hslots]
  refine List.countP_congr fun slot hslot => ?_
  have hinfo := hdescribed slot (List.mem_range.mp hslot)
  by_cases hheld : node.input slot = some target <;> simp [hheld, hinfo]

end Node

namespace Graph

variable {g : Graph} {target : NodeId} {site : UseSite}

/-- What a site says of its slot: an attached node has it, it holds `input`, and this is its
description. -/
def Holds (g : Graph) (site : UseSite) (input : Option NodeId) : Prop :=
  ∃ node, g.node? site.user = some node ∧ node.isAlive = true ∧
    site.slot < node.slots.length ∧ node.input site.slot = input ∧
    node.slotInfo site.slot = some site.info

/-! ## The collection -/

theorem mem_users_iff {user : NodeId} : user ∈ g.users target ↔ user ∈ g.usages target :=
  List.mem_eraseDups

/-- **The slots that are collected are those that hold the target.** -/
theorem Balanced.mem_usageSites_iff (b : g.Balanced) :
    site ∈ g.usageSites target ↔ g.Holds site (some target) := by
  obtain ⟨user, slot, info⟩ := site
  rw [usageSites, List.mem_flatMap]
  constructor
  · rintro ⟨u, hu, hmem⟩
    obtain ⟨node, hnode, halive, -⟩ := b.mem_usages_iff.mp (mem_users_iff.mp hu)
    rw [hnode, List.mem_map] at hmem
    obtain ⟨⟨s, i⟩, hsi, he⟩ := hmem
    cases he
    obtain ⟨hinput, hinfo⟩ := Node.mem_slotsHolding_iff.mp hsi
    exact ⟨node, hnode, halive, lt_length_of_input hinput, hinput, hinfo⟩
  · rintro ⟨node, hnode, halive, -, hinput, hinfo⟩
    refine ⟨user, ?_, ?_⟩
    · exact mem_users_iff.mpr
        (b.mem_usages_iff.mpr ⟨node, hnode, halive, mem_slots_iff.mpr ⟨slot, hinput⟩⟩)
    · rw [hnode, List.mem_map]
      exact ⟨(slot, info), Node.mem_slotsHolding_iff.mpr ⟨hinput, hinfo⟩, rfl⟩

/-- The collected slots of some roles are the edges of these roles to the target. -/
theorem Balanced.exists_site_iff (b : g.Balanced) {x : NodeId} {node : Node}
    (hnode : g.node? x = some node) (roles : InputType → Bool) (slot : Nat) :
    (∃ site ∈ (g.usageSites target).filter fun site => roles site.info.inputType,
        site.user = x ∧ site.slot = slot) ↔
      node.isAlive = true ∧ node.input slot = some target ∧
        ∃ info, node.slotInfo slot = some info ∧ roles info.inputType = true := by
  constructor
  · rintro ⟨site, hsite, rfl, rfl⟩
    obtain ⟨hmem, hrole⟩ := List.mem_filter.mp hsite
    obtain ⟨found, hfound, halive, -, hinput, hinfo⟩ := b.mem_usageSites_iff.mp hmem
    cases hnode.symm.trans hfound
    exact ⟨halive, hinput, site.info, hinfo, hrole⟩
  · rintro ⟨halive, hinput, info, hinfo, hrole⟩
    refine ⟨⟨x, slot, info⟩, List.mem_filter.mpr ⟨?_, hrole⟩, rfl, rfl⟩
    exact b.mem_usageSites_iff.mpr ⟨node, hnode, halive, lt_length_of_input hinput, hinput, hinfo⟩

theorem sites_distinct (node : Node) (user : NodeId) :
    ((node.slotsHolding target).map fun (slot, info) =>
      (⟨user, slot, info⟩ : UseSite)).Pairwise UseSite.Apart := by
  rw [List.pairwise_map]
  exact (node.slotsHolding_sorted target).imp fun h => .inr (Nat.ne_of_lt h)

/-- **No slot is collected twice.** -/
theorem usageSites_distinct (g : Graph) (target : NodeId) :
    (g.usageSites target).Pairwise UseSite.Apart := by
  rw [usageSites, List.pairwise_flatMap]
  refine ⟨?_, (nodup_eraseDups (g.usages target)).imp ?_⟩
  · intro user _
    cases g.node? user with
    | none => exact List.Pairwise.nil
    | some node => exact sites_distinct node user
  · -- the sites of different users differ in the user
    intro u v hne a ha b hb
    refine .inl ?_
    split at ha
    · obtain ⟨_, -, rfl⟩ := List.mem_map.mp ha
      split at hb
      · obtain ⟨_, -, rfl⟩ := List.mem_map.mp hb
        exact hne
      · cases hb
    · cases ha

/-- **The users of the collected slots are the usages**, in an order of their own. -/
theorem Balanced.usageSites_perm (b : g.Balanced) (target : NodeId) :
    ((g.usageSites target).map UseSite.user).Perm (g.usages target) := by
  have husers : (g.usageSites target).map UseSite.user =
      (g.users target).flatMap fun user => List.replicate ((g.usages target).count user) user := by
    rw [usageSites, List.map_flatMap, List.flatMap_def, List.flatMap_def]
    refine congrArg List.flatten (List.map_congr_left fun user huser => ?_)
    obtain ⟨node, hnode, halive, -⟩ := b.mem_usages_iff.mp (mem_users_iff.mp huser)
    have placed := b.placed hnode
    have hlength := Node.length_slotsHolding target fun slot hslot => by
      obtain ⟨info, hinfo, -⟩ := placed.slotsFit halive slot hslot
      rw [hinfo]
      rfl
    rw [hnode, placed.count_usages, Node.edges, if_pos halive, ← hlength]
    simp [Function.comp_def, List.map_const']
  rw [List.perm_iff_count]
  intro x
  have hnodup : (g.users target).Nodup := nodup_eraseDups _
  rw [husers, count_flatMap_replicate hnodup]
  split
  · rfl
  · next hx => exact (List.count_eq_zero.mpr fun hmem => hx (mem_users_iff.mpr hmem)).symm

/-! ## Moving a collection -/

/-- The slots of the node `x` after the listed sites were written. -/
def refill (x : NodeId) (new : Option NodeId) (sites : List UseSite)
    (slots : List (Option NodeId)) : List (Option NodeId) :=
  sites.foldl (fun slots site => if site.user = x then slots.set site.slot new else slots) slots

theorem node?_relinkAll (g : Graph) (x : NodeId) (sites : List UseSite) (old new : Option NodeId) :
    (g.relinkAll sites old new).node? x =
      (g.node? x).map fun node => { node with slots := refill x new sites node.slots } := by
  rw [relinkAll]
  induction sites generalizing g with
  | nil => exact (Option.map_id_apply (x := g.node? x)).symm
  | cons site sites ih =>
      rw [List.foldl_cons, ih, node?_relink]
      cases g.node? x with
      | none => split <;> rfl
      | some node => by_cases h : site.user = x <;> simp [refill, h]

@[simp] theorem length_refill (x : NodeId) (new : Option NodeId) (sites : List UseSite)
    (slots : List (Option NodeId)) : (refill x new sites slots).length = slots.length := by
  induction sites generalizing slots with
  | nil => rfl
  | cons site sites ih =>
      rw [refill, List.foldl_cons, ← refill, ih]
      split <;> simp

/-- A slot that was written holds the new input, and any other what it held. -/
theorem getElem?_refill (x : NodeId) (new : Option NodeId) (sites : List UseSite)
    (slots : List (Option NodeId)) (i : Nat) :
    (refill x new sites slots)[i]? =
      if (∃ site ∈ sites, site.user = x ∧ site.slot = i) ∧ i < slots.length then some new
      else slots[i]? := by
  induction sites generalizing slots with
  | nil => simp [refill]
  | cons site sites ih =>
      rw [refill, List.foldl_cons, ← refill, ih]
      by_cases hx : site.user = x
      · by_cases hi : site.slot = i
        · by_cases hlt : i < slots.length <;> simp [hx, hi, hlt]
        · simp [hx, hi]
      · simp [hx]

theorem input_refill (node : Node) (x : NodeId) (new : Option NodeId) (sites : List UseSite)
    {slot : Nat} (hslot : slot < node.slots.length) :
    { node with slots := refill x new sites node.slots }.input slot =
      if ∃ site ∈ sites, site.user = x ∧ site.slot = slot then new else node.input slot := by
  unfold Node.input
  rw [getElem?_refill]
  simp only [hslot, and_true]
  split <;> rfl

/-- A move of one slot leaves what is said of another. -/
theorem Holds.relink {other : UseSite} {input old new : Option NodeId} (h : g.Holds other input)
    (happart : site.Apart other) : (g.relink site.user site.slot old new).Holds other input := by
  obtain ⟨node, hnode, halive, hslot, hinput, hinfo⟩ := h
  have hfind := g.node?_relink other.user site.user site.slot old new
  by_cases huser : site.user = other.user
  · have hne : site.slot ≠ other.slot := happart.resolve_left fun h => h huser
    rw [if_pos huser, hnode] at hfind
    refine ⟨_, hfind, halive, by simpa using hslot, ?_, ?_⟩
    · simpa [Node.input, hne] using hinput
    · exact (slotInfo_slots (by simp)).trans hinfo
  · rw [if_neg huser, hnode] at hfind
    exact ⟨node, hfind, halive, hslot, hinput, hinfo⟩

theorem Serves.relink {d user : NodeId} {slot : Nat} {type : InputType} {old new : Option NodeId}
    (h : g.Serves d type) : (g.relink user slot old new).Serves d type := by
  apply h.mono
  intro found hfound halive
  rw [node?_relink, hfound]
  split
  · exact ⟨_, rfl, halive, rfl⟩
  · exact ⟨found, rfl, halive, rfl⟩

/-- **Moving distinct slots keeps the invariant**, when each holds the old input and fits the new
one.  The induction is on the list; what is said of the slots to come survives the move of the
first. -/
theorem Balanced.relinkAll (b : g.Balanced) {sites : List UseSite} {old new : Option NodeId}
    (hholds : ∀ site ∈ sites, g.Holds site old) (hfits : ∀ site ∈ sites, g.Fits site.info new)
    (happart : sites.Pairwise UseSite.Apart) : (g.relinkAll sites old new).Balanced := by
  induction sites generalizing g with
  | nil => exact b
  | cons site sites ih =>
      obtain ⟨hsite, hrest⟩ := List.pairwise_cons.mp happart
      obtain ⟨node, hnode, halive, hslot, rfl, hinfo⟩ := hholds site List.mem_cons_self
      refine ih (b.relink hnode halive hslot hinfo (hfits site List.mem_cons_self)) ?_ ?_ hrest
      · intro other hother
        exact (hholds other (List.mem_cons_of_mem _ hother)).relink (hsite other hother)
      · intro other hother
        exact (hfits other (List.mem_cons_of_mem _ hother)).mono fun d type _ => Serves.relink

/-! ## Slots and usage lists after a move -/

/-- The moved slots hold the new input, and every other slot what it held. -/
theorem input_relinkAll {sites : List UseSite} {old new : Option NodeId}
    (hholds : ∀ site ∈ sites, g.Holds site old) (x : NodeId) (slot : Nat) :
    (g.relinkAll sites old new).input x slot =
      if ∃ site ∈ sites, site.user = x ∧ site.slot = slot then new else g.input x slot := by
  have hsite : (∃ site ∈ sites, site.user = x ∧ site.slot = slot) →
      ∃ node, g.node? x = some node ∧ slot < node.slots.length := by
    rintro ⟨site, hmem, rfl, rfl⟩
    obtain ⟨node, hnode, -, hslot, -⟩ := hholds site hmem
    exact ⟨node, hnode, hslot⟩
  rw [input, input, node?_relinkAll]
  cases hnode : g.node? x with
  | none =>
      rw [if_neg fun hmoved => ?_]
      · rfl
      · obtain ⟨node, hfound, -⟩ := hsite hmoved
        cases hnode.symm.trans hfound
  | some node =>
      rw [Option.map_some, Option.bind_some, Option.bind_some]
      by_cases hlt : slot < node.slots.length
      · exact input_refill node x new sites hlt
      · rw [if_neg fun hmoved => ?_]
        · simp [Node.input, hlt]
        · obtain ⟨found, hfound, hslot⟩ := hsite hmoved
          cases hnode.symm.trans hfound
          exact hlt hslot

theorem usages_relinkAll_of_ne {sites : List UseSite} {old new : Option NodeId} {d : NodeId}
    (hold : old ≠ some d) (hnew : new ≠ some d) :
    (g.relinkAll sites old new).usages d = g.usages d := by
  rw [relinkAll]
  induction sites generalizing g with
  | nil => rfl
  | cons site sites ih => rw [List.foldl_cons, ih, usages_relink_of_ne _ _ _ _ hold hnew]

/-- A slot that is moved takes one entry from the list of the old target to that of the new one. -/
theorem Balanced.count_usages_relink (b : g.Balanced) {old : Option NodeId} (h : g.Holds site old)
    (new : Option NodeId) (d x : NodeId) :
    ((g.relink site.user site.slot old new).usages d).count x +
        (if old = some d ∧ site.user = x then 1 else 0) =
      (g.usages d).count x + if new = some d ∧ site.user = x then 1 else 0 := by
  rw [g.count_usages_relink]
  split
  · next he =>
    obtain ⟨rfl, rfl⟩ := he
    obtain ⟨node, hnode, halive, -, hinput, -⟩ := h
    have hpos := b.count_usages_pos_of_input hnode halive hinput
    omega
  · omega

/-! ## What the edits move -/

/-- The slots may be moved from `old` to `new`: they are distinct, each holds the one, and the other
fits. -/
structure Movable (g : Graph) (sites : List UseSite) (old new : Option NodeId) : Prop where
  /-- Each holds the old input. -/
  holds : ∀ site ∈ sites, g.Holds site old
  /-- The new one fits. -/
  fits : ∀ site ∈ sites, g.Fits site.info new
  /-- They are distinct. -/
  apart : sites.Pairwise UseSite.Apart

/-- **Moved slots take their entries with them**, one for each slot, from the list of the old target
to that of the new one. -/
theorem Balanced.count_usages_relinkAll (b : g.Balanced) {sites : List UseSite}
    {new : Option NodeId} (movable : g.Movable sites (some target) new) (d x : NodeId) :
    ((g.relinkAll sites (some target) new).usages d).count x +
        (if target = d then (sites.map UseSite.user).count x else 0) =
      (g.usages d).count x + if new = some d then (sites.map UseSite.user).count x else 0 := by
  obtain ⟨hholds, hfits, happart⟩ := movable
  rw [Graph.relinkAll]
  induction sites generalizing g with
  | nil => simp
  | cons site sites ih =>
      obtain ⟨hsite, hrest⟩ := List.pairwise_cons.mp happart
      obtain ⟨node, hnode, halive, hslot, hinput, hinfo⟩ := hholds site List.mem_cons_self
      have b' := b.relink hnode halive hslot hinfo (hfits site List.mem_cons_self)
      rw [hinput] at b'
      have hhead := b.count_usages_relink (hholds site List.mem_cons_self) new d x
      have htail := ih b'
        (fun other hother =>
          (hholds other (List.mem_cons_of_mem _ hother)).relink (hsite other hother))
        (fun other hother =>
          (hfits other (List.mem_cons_of_mem _ hother)).mono fun d type _ => Serves.relink) hrest
      rw [List.foldl_cons, List.map_cons, List.count_cons]
      by_cases hold : target = d <;> by_cases hnew : new = some d <;>
        by_cases huser : site.user = x <;>
        simp only [Option.some.injEq, hold, hnew, huser, beq_iff_eq, and_self, and_false, and_true,
          if_true, if_false] at hhead htail ⊢ <;> omega

variable {user old new : NodeId} {node : Node} {sites : List UseSite}

theorem movable_of_checkSetInput {slot : Nat} {input : Option NodeId}
    (hcheck : g.checkSetInput user slot input = .ok node) (hslot : slot < node.slots.length) :
    ∃ info, node.slotInfo slot = some info ∧
      g.Movable [⟨user, slot, info⟩] (node.input slot) input := by
  obtain ⟨hnode, halive, info, hinfo, hfits⟩ := checkSetInput_eq_ok_iff.mp hcheck
  refine ⟨info, hinfo, fun site hsite => ?_, fun site hsite => ?_, List.pairwise_singleton _ _⟩
  · rw [List.mem_singleton.mp hsite]
    exact ⟨node, hnode, halive, hslot, rfl, hinfo⟩
  · rw [List.mem_singleton.mp hsite]
    exact hfits

theorem movable_of_checkReplaceInput (hcheck : g.checkReplaceInput user old new = .ok sites) :
    g.Movable sites (some old) (some new) := by
  obtain ⟨node, hnode, halive, rfl, hfits⟩ := checkReplaceInput_eq_ok_iff.mp hcheck
  refine ⟨fun site hsite => ?_, fun site hsite => ?_, sites_distinct node user⟩
  · obtain ⟨⟨slot, info⟩, hmem, rfl⟩ := List.mem_map.mp hsite
    obtain ⟨hinput, hinfo⟩ := Node.mem_slotsHolding_iff.mp hmem
    exact ⟨node, hnode, halive, lt_length_of_input hinput, hinput, hinfo⟩
  · exact (checkSites_eq_ok_iff.mp hfits site hsite).2

theorem Balanced.movable_of_checkReplaceAtUsages (b : g.Balanced)
    (hcheck : g.checkReplaceAtUsages old new = .ok sites) :
    g.Movable sites (some old) (some new) := by
  obtain ⟨-, rfl, -, hserves⟩ := checkReplaceAtUsages_eq_ok_iff.mp hcheck
  exact ⟨fun site hsite => b.mem_usageSites_iff.mp hsite, hserves, g.usageSites_distinct old⟩

theorem Balanced.movable_of_checkReplaceAtUsagesOfType (b : g.Balanced) {type : InputType}
    {new : Option NodeId} (hcheck : g.checkReplaceAtUsagesOfType old type new = .ok sites) :
    g.Movable sites (some old) new := by
  obtain ⟨-, rfl, hfits⟩ := checkReplaceAtUsagesOfType_eq_ok_iff.mp hcheck
  refine ⟨fun site hsite => ?_, fun site hsite => ?_, (g.usageSites_distinct old).filter _⟩
  · exact b.mem_usageSites_iff.mp (List.mem_filter.mp hsite).1
  · exact (checkSites_eq_ok_iff.mp hfits site hsite).2

end Graph

end SeaOfNodes
