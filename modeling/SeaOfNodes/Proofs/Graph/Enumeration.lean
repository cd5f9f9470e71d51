import Mathlib.Data.List.Induction
import SeaOfNodes.Proofs.Graph.Invariance
import SeaOfNodes.Proofs.Graph.Sites

/-!
# Every edge is listed once

A usage list has an entry for every edge and does not say which slot it stands for; removals have
left its entries in any order.  `Graph.users` drops the repetitions, and `Graph.usageSites` looks
the slots of every user up again.

**`Reaches.usageSites_exact`** says that nothing is lost or doubled on this way, in every graph that
a run leads to: the sites are the edges, each of them once and with its description, and there are
as many as usages.

### What is load-bearing

A slot that holds the node but has no description would not be listed, and nobody would know.  That
there is none is part of the invariant of the graph (`Placed.slotsFit`), for the slots of a layout
as for further values.
-/

namespace SeaOfNodes

/-- Where repetitions are dropped, the first occurrence of an entry is kept.  The induction is on
the last entry, which either occurs before and is dropped, or comes behind all others. -/
theorem pairwise_idxOf_eraseDups {α : Type} [DecidableEq α] (xs : List α) :
    xs.eraseDups.Pairwise fun x y => xs.idxOf x < xs.idxOf y := by
  induction xs using List.reverseRecOn with
  | nil => exact List.Pairwise.nil
  | append_singleton xs last ih =>
      have hbefore : ∀ x ∈ xs.eraseDups, (xs ++ [last]).idxOf x = xs.idxOf x :=
        fun x hx => List.idxOf_append_of_mem (List.mem_eraseDups.mp hx)
      have hkept : xs.eraseDups.Pairwise fun x y =>
          (xs ++ [last]).idxOf x < (xs ++ [last]).idxOf y := by
        refine ih.imp_of_mem fun {x y} hx hy hlt => ?_
        rwa [hbefore x hx, hbefore y hy]
      rw [List.eraseDups_append]
      by_cases hlast : last ∈ xs
      · have hdropped : [last].removeAll xs = [] := by simp [List.removeAll, hlast]
        rw [hdropped, List.eraseDups_nil, List.append_nil]
        exact hkept
      · have hnew : [last].removeAll xs = [last] := by simp [List.removeAll, hlast]
        rw [hnew]
        refine List.pairwise_append.mpr ⟨hkept, List.pairwise_singleton _ _, ?_⟩
        intro x hx y hy
        rw [List.mem_singleton.mp hy, hbefore x hx, List.idxOf_append_of_notMem hlast]
        have hlt := List.idxOf_lt_length_of_mem (List.mem_eraseDups.mp hx)
        exact Nat.lt_of_lt_of_le hlt (Nat.le_add_right _ _)

namespace Graph

variable {admits : Node → Prop} {g : Graph} {d u : NodeId}

/-- An edge is what a slot of an attached node holds. -/
theorem exists_holds_iff {slot : Nat} :
    (∃ node, g.node? u = some node ∧ node.isAlive = true ∧ node.input slot = some d) ↔
      g.isAlive u = true ∧ g.input u slot = some d := by
  unfold isAlive input
  cases g.node? u <;> simp

/-- The users of a node are the attached nodes with a slot that holds it. -/
theorem Balanced.mem_users_iff_exists_input (b : g.Balanced) :
    u ∈ g.users d ↔ ∃ slot, g.isAlive u = true ∧ g.input u slot = some d := by
  simp only [mem_users_iff, b.mem_usages_iff, mem_slots_iff, ← exists_holds_iff]
  constructor
  · rintro ⟨node, hnode, halive, slot, hinput⟩
    exact ⟨slot, node, hnode, halive, hinput⟩
  · rintro ⟨slot, node, hnode, halive, hinput⟩
    exact ⟨node, hnode, halive, slot, hinput⟩

/-- The sites are the edges, with the descriptions of their slots. -/
theorem Balanced.mem_map_usageSites_iff (b : g.Balanced) {slot : Nat} {info : Option SlotInfo} :
    (u, slot, info) ∈ (g.usageSites d).map (fun site => (site.user, site.slot, some site.info)) ↔
      g.isAlive u = true ∧ g.input u slot = some d ∧
        info = (g.node? u).bind (·.slotInfo slot) := by
  rw [List.mem_map, ← and_assoc, ← exists_holds_iff]
  constructor
  · rintro ⟨site, hsite, he⟩
    cases he
    obtain ⟨node, hnode, halive, -, hinput, hinfo⟩ := b.mem_usageSites_iff.mp hsite
    refine ⟨⟨node, hnode, halive, hinput⟩, ?_⟩
    rw [hnode, Option.bind_some, hinfo]
  · rintro ⟨⟨node, hnode, halive, hinput⟩, rfl⟩
    -- what holds something in a slot has a description of it
    obtain ⟨info, hinfo, -⟩ := b.serves_of_input hnode halive hinput
    refine ⟨⟨u, slot, info⟩, b.mem_usageSites_iff.mpr ?_, ?_⟩
    · exact ⟨node, hnode, halive, lt_length_of_input hinput, hinput, hinfo⟩
    · rw [hnode, Option.bind_some, hinfo]

/-- **The sites of a node are its edges, each once.**  In every graph that a run leads to:

* A site is listed for every slot of an attached node that holds the node, with the description of
  the slot, and for nothing else.
* No slot is listed twice.
* There are as many sites as usages.
* The users are the attached nodes with such a slot, each listed once, in the order in which they
  occur first among the usages. -/
theorem Reaches.usageSites_exact (reached : Reaches admits new g) (d : NodeId) :
    (∀ u slot info,
      (u, slot, info) ∈ (g.usageSites d).map (fun site => (site.user, site.slot, some site.info)) ↔
        g.isAlive u = true ∧ g.input u slot = some d ∧
          info = (g.node? u).bind (·.slotInfo slot)) ∧
    (g.usageSites d).Pairwise UseSite.Apart ∧
    (g.usageSites d).length = g.usageCount d ∧
    (∀ u, u ∈ g.users d ↔ ∃ slot, g.isAlive u = true ∧ g.input u slot = some d) ∧
    (g.users d).Nodup ∧
    (g.users d).Pairwise fun u v => (g.usages d).idxOf u < (g.usages d).idxOf v := by
  have b := reached.balanced
  refine ⟨fun u slot info => b.mem_map_usageSites_iff, g.usageSites_distinct d, ?_,
    fun u => b.mem_users_iff_exists_input, nodup_eraseDups _, pairwise_idxOf_eraseDups _⟩
  have hperm := (b.usageSites_perm d).length_eq
  rwa [List.length_map] at hperm

/-- `storeThenLoad` where the load is its own witness, and a frame state has it for two of its
values. -/
def loadInFrame : Graph :=
  (setInput ⟨6⟩ 3 (some ⟨6⟩)).after ((frameState 0 [⟨6⟩, ⟨4⟩, ⟨6⟩]).after storeThenLoad)

theorem usageSites_exact_loadInFrame :
    loadInFrame.usages ⟨6⟩ = [⟨7⟩, ⟨7⟩, ⟨8⟩, ⟨8⟩, ⟨6⟩] ∧ (loadInFrame.usageSites ⟨6⟩).length = 5 ∧
      (⟨8⟩, 2, some (NodeKind.tailSlot .value)) ∈ (loadInFrame.usageSites ⟨6⟩).map
        (fun site => (site.user, site.slot, some site.info)) ∧
      (⟨6⟩, 3, some SlotInfo.lastLocationAccess) ∈ (loadInFrame.usageSites ⟨6⟩).map
        (fun site => (site.user, site.slot, some site.info)) := by
  have reached : loadInFrame.Reachable :=
    .edit (.edit reachable_storeThenLoad (.frameState _ _)) (.setInput _ _ _)
  obtain ⟨hsites, -, hlength, -⟩ := Reaches.usageSites_exact reached ⟨6⟩
  exact ⟨by decide +kernel, hlength.trans (by decide +kernel),
    (hsites ⟨8⟩ 2 _).mpr (by decide +kernel), (hsites ⟨6⟩ 3 _).mpr (by decide +kernel)⟩

end Graph

end SeaOfNodes
