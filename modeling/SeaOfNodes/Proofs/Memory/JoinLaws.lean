import SeaOfNodes.Proofs.Location.Interned
import SeaOfNodes.Proofs.Lowering.Acceptance
import SeaOfNodes.Proofs.Memory.OrderLaws

/-!
# Joining checkpoints is the union

Checkpoints are lists of locations, and joining two of them is the union of what they kill:
**`LocationUniverse.Interned.join_laws`** has the laws of a union, for lists of any length, with
repetitions or with `ANY_LOCATION` among them, and what follows for a list of nodes that replaces
another.

### What is load-bearing

A checkpoint kills everything if it names a location that denotes `ANY_LOCATION`, but a join looks
for the id `LocationUniverse.anyId` only.  That the two are the same is what is used of the universe
(`LocationUniverse.Interned.isAny_iff`).

Equality of lists is more than a union promises.  Joins are associative as values since dropping
repetitions from a part beforehand makes no difference to what is left of the whole
(`eraseDups_append_left`, `eraseDups_append_right`).
-/

namespace SeaOfNodes

/-! ## Lists without repetitions -/

section

variable {α : Type} [BEq α] [LawfulBEq α]

theorem eraseDups_of_nodup {xs : List α} (h : xs.Nodup) : xs.eraseDups = xs := by
  induction xs with
  | nil => rfl
  | cons x xs ih =>
      obtain ⟨hx, hxs⟩ := List.nodup_cons.mp h
      have hkept : (xs.filter fun y => !y == x) = xs := by
        rw [List.filter_eq_self]
        intro y hy
        have hne : y ≠ x := fun he => hx (he ▸ hy)
        simp [hne]
      rw [List.eraseDups_cons, hkept, ih hxs]

theorem eraseDups_eraseDups (xs : List α) : xs.eraseDups.eraseDups = xs.eraseDups :=
  eraseDups_of_nodup (nodup_eraseDups xs)

/-- It makes no difference whether repetitions are dropped before a selection or after it. -/
theorem eraseDups_filter (p : α → Bool) (xs : List α) :
    (xs.filter p).eraseDups = xs.eraseDups.filter p := by
  induction hn : xs.length using Nat.strongRecOn generalizing xs with
  | ind n ih =>
      cases xs with
      | nil => rfl
      | cons x xs =>
          have hlt : (xs.filter fun y => !y == x).length < n := by
            rw [← hn, List.length_cons]
            exact Nat.lt_succ_of_le (List.length_filter_le _ xs)
          rw [List.eraseDups_cons, List.filter_cons, List.filter_cons, ← ih _ hlt _ rfl]
          split
          · rw [List.eraseDups_cons, List.filter_filter, List.filter_filter]
            simp only [Bool.and_comm]
          · next hx =>
            -- what is selected is not `x`
            rw [List.filter_filter]
            refine congrArg List.eraseDups (List.filter_congr fun y _ => ?_)
            by_cases hy : y = x
            · rw [hy, Bool.eq_false_iff.mpr hx]
              rfl
            · simp [hy]

theorem eraseDups_append_left (xs ys : List α) :
    (xs.eraseDups ++ ys).eraseDups = (xs ++ ys).eraseDups := by
  have hremoved : ys.removeAll xs.eraseDups = ys.removeAll xs := by
    simp only [List.removeAll, List.elem_eq_mem, List.mem_eraseDups]
  rw [List.eraseDups_append, List.eraseDups_append, eraseDups_eraseDups, hremoved]

theorem eraseDups_append_right (xs ys : List α) :
    (xs ++ ys.eraseDups).eraseDups = (xs ++ ys).eraseDups := by
  rw [List.eraseDups_append, List.eraseDups_append]
  simp only [List.removeAll, eraseDups_filter, eraseDups_eraseDups]

end

namespace Checkpoint

open LocationUniverse (anyId)

variable {u : LocationUniverse} {oracle : AliasOracle} {a b c : Checkpoint} {location : LocationId}
  {named other : List LocationId}

/-! ## Exact laws -/

/-- What a list of locations kills together is a matter of whether `ANY_LOCATION` is among them,
and else of their first occurrences. -/
theorem ofLocations_congr (hany : anyId ∈ named ↔ anyId ∈ other)
    (h : anyId ∉ named → named.eraseDups = other.eraseDups) :
    ofLocations named = ofLocations other := by
  by_cases hmem : anyId ∈ named
  · rw [ofLocations, ofLocations, if_pos hmem, if_pos (hany.mp hmem)]
  · rw [ofLocations, ofLocations, if_neg hmem, if_neg (mt hany.mpr hmem), h hmem]

theorem anyId_mem_locations_ofLocations :
    anyId ∈ (ofLocations named).locations ↔ anyId ∈ named := by
  rw [locations_ofLocations]
  split
  · next hmem => exact iff_of_true (List.mem_singleton_self _) hmem
  · exact List.mem_eraseDups

/-- A part that was joined already is joined as what it was named by. -/
theorem ofLocations_append_left (named other : List LocationId) :
    ofLocations ((ofLocations named).locations ++ other) = ofLocations (named ++ other) := by
  refine ofLocations_congr ?_ fun hmem => ?_
  · rw [List.mem_append, List.mem_append, anyId_mem_locations_ofLocations]
  · rw [List.mem_append, anyId_mem_locations_ofLocations, not_or] at hmem
    rw [locations_ofLocations, if_neg hmem.1, eraseDups_append_left]

theorem ofLocations_append_right (named other : List LocationId) :
    ofLocations (other ++ (ofLocations named).locations) = ofLocations (other ++ named) := by
  refine ofLocations_congr ?_ fun hmem => ?_
  · rw [List.mem_append, List.mem_append, anyId_mem_locations_ofLocations]
  · rw [List.mem_append, anyId_mem_locations_ofLocations, not_or] at hmem
    rw [locations_ofLocations, if_neg hmem.2, eraseDups_append_right]

/-- **Associativity**, as an equality of values. -/
theorem join_assoc (a b c : Checkpoint) : (a.join b).join c = a.join (b.join c) := by
  unfold join
  rw [ofLocations_append_left, ofLocations_append_right, List.append_assoc]

/-- **Idempotence**, up to repetitions. -/
theorem join_self (a : Checkpoint) : a.join a = ofLocations a.locations := by
  refine ofLocations_congr (by simp) fun _ => ?_
  have hremoved : a.locations.removeAll a.locations = [] := by
    simp [List.removeAll]
  rw [List.eraseDups_append, hremoved, List.eraseDups_nil, List.append_nil]

theorem isSingle_ofLocations :
    (ofLocations named).isSingle = decide ((ofLocations named).locations.length = 1) := by
  unfold ofLocations
  split
  · rfl
  · split
    · rfl
    · next hne =>
      refine (decide_eq_false fun hlength => ?_).symm
      obtain ⟨location, hsingle⟩ := List.length_eq_one_iff.mp hlength
      exact hne location hsingle

/-- The locations of a checkpoint do not depend on the order in which they were named, but for the
order. -/
theorem locations_ofLocations_perm (h : ∀ location, location ∈ named ↔ location ∈ other) :
    (ofLocations named).locations.Perm (ofLocations other).locations := by
  rw [locations_ofLocations, locations_ofLocations]
  by_cases hmem : anyId ∈ named
  · rw [if_pos hmem, if_pos ((h _).mp hmem)]
  · rw [if_neg hmem, if_neg (mt (h _).mpr hmem)]
    rw [List.perm_ext_iff_of_nodup (nodup_eraseDups _) (nodup_eraseDups _)]
    intro location
    rw [List.mem_eraseDups, List.mem_eraseDups, h]

/-- **Commutativity**, up to the order of the locations. -/
theorem join_comm (a b : Checkpoint) :
    (a.join b).locations.Perm (b.join a).locations ∧ (a.join b).isSingle = (b.join a).isSingle := by
  have hperm : (a.join b).locations.Perm (b.join a).locations :=
    locations_ofLocations_perm fun location => by rw [List.mem_append, List.mem_append, or_comm]
  refine ⟨hperm, ?_⟩
  show (ofLocations _).isSingle = (ofLocations _).isSingle
  rw [isSingle_ofLocations, isSingle_ofLocations]
  exact congrArg (fun n => decide (n = 1)) hperm.length_eq

/-! ## What is killed -/

/-- **A join may kill what either part may kill**, for an oracle that never tells `ANY_LOCATION`
apart from the location. -/
theorem mayKill_join (hany : oracle.canReorder u anyId location = false) :
    (a.join b).mayKill u oracle location =
      (a.mayKill u oracle location || b.mayKill u oracle location) := by
  unfold mayKill join
  rw [any_ofLocations (by rw [hany]; rfl), List.any_append]

/-- What is killed for certain may be killed. -/
theorem mayKill_of_covers (h : a.covers u location = true) :
    a.mayKill u .identity location = true := by
  obtain ⟨killed, hmem, hkills⟩ := List.any_eq_true.mp h
  refine List.any_eq_true.mpr ⟨killed, hmem, ?_⟩
  have hrelation : AliasOracle.identity.relation u killed location ≠ .disjoint := by
    simp only [AliasOracle.identity]
    rw [Bool.or_eq_true, decide_eq_true_eq] at hkills
    obtain rfl | hany := hkills
    · cases u.get? killed with
      | none => simp
      | some known => cases hknown : known.isAny <;> simp [hknown]
    · obtain ⟨known, hknown, hisAny⟩ := (Option.any_eq_true _ _).mp hany
      rw [hknown]
      cases u.get? location with
      | none => simp
      | some other => simp [hisAny]
  show (!(AliasOracle.identity.relation u killed location).permitsReorder) = true
  revert hrelation
  cases AliasOracle.identity.relation u killed location <;> simp [AliasRelation.permitsReorder]

end Checkpoint

open Checkpoint

namespace LocationUniverse.Interned

variable {u : LocationUniverse}

/-- In an interned universe a checkpoint that names what denotes `ANY_LOCATION` names its id. -/
theorem anyId_mem_iff (h : u.Interned) (a : Checkpoint) :
    anyId ∈ a.locations ↔ ∃ location ∈ a.locations, u.get? location = some .any := by
  constructor
  · exact fun hmem => ⟨anyId, hmem, h.get?_anyId⟩
  · rintro ⟨location, hmem, hknown⟩
    rwa [(h.isAny_iff hknown).mp rfl] at hmem

/-- **Joining checkpoints is the union of what they kill**, in every universe that calls fill.

* A join covers what one of the parts covers, and under an oracle that tells no location apart from
  `ANY_LOCATION` it may kill what one of the parts may kill.
* What a checkpoint covers it may kill, as far as the oracle of identities can tell.
* Joins are associative, and commutative up to the order of the locations.
* A checkpoint joined with itself is `ANY_LOCATION` alone if it names a location that denotes
  that, and else has the locations of the checkpoint, each where it occurs first.
* The union of a list of checkpoints covers what one of them covers.  So a replacement of a node
  that kills one location is accepted exactly if every usage has a target, and one of the listed
  nodes has a checkpoint that covers the location. -/
theorem join_laws (h : u.Interned) (a b c : Checkpoint) :
    (∀ location, (a.join b).covers u location = true ↔
      a.covers u location = true ∨ b.covers u location = true) ∧
    (∀ oracle : AliasOracle, (∀ location, oracle.canReorder u anyId location = false) →
      ∀ location, (a.join b).mayKill u oracle location = true ↔
        a.mayKill u oracle location = true ∨ b.mayKill u oracle location = true) ∧
    (∀ location, a.covers u location = true → a.mayKill u .identity location = true) ∧
    (a.join b).join c = a.join (b.join c) ∧
    ((a.join b).locations.Perm (b.join a).locations ∧
      (a.join b).isSingle = (b.join a).isSingle) ∧
    ((∃ location ∈ a.locations, u.get? location = some .any) → a.join a = .single anyId) ∧
    (¬ (∃ location ∈ a.locations, u.get? location = some .any) →
      (a.join a).locations = a.locations.eraseDups) ∧
    (∀ cs location, (joinAll cs).any (·.covers u location) = true ↔
      ∃ c ∈ cs, c.covers u location = true) ∧
    ∀ (g : Graph) id r location, g.locations = u →
      (g.checkReplacement id (some (.single location)) r = .ok () ↔
        (∀ site ∈ g.usageSites id, g.checkTarget id r site = .ok ()) ∧
        ∃ x ∈ r.nodes, ∃ c, g.checkpoint? x = some c ∧ c.covers u location = true) := by
  refine ⟨fun location => ?_, fun oracle hany location => ?_, fun location => mayKill_of_covers,
    join_assoc a b c, join_comm a b, fun hmem => ?_, fun hmem => ?_, fun cs location => ?_,
    fun g id r location hlocations => ?_⟩
  · rw [covers_join h.get?_anyId, Bool.or_eq_true]
  · rw [mayKill_join (hany location), Bool.or_eq_true]
  · rw [join_self, ofLocations, if_pos ((h.anyId_mem_iff a).mpr hmem)]
  · rw [join_self, locations_ofLocations, if_neg (mt (h.anyId_mem_iff a).mp hmem)]
  · rw [any_covers_joinAll h.get?_anyId, List.any_eq_true]
  · subst hlocations
    simp only [Graph.checkReplacement_eq_ok_iff, Graph.checkTarget_eq_ok_iff, Option.all_some,
      Graph.killsAll_single h.get?_anyId, List.any_eq_true, Graph.covers, Option.any_eq_true]

/-- In the universe of two stores, a join that names a location twice names it once, and the start
of the graph, which kills everything, may stand for the first of the stores. -/
theorem join_laws_pointStores :
    let g := Graph.pointStores
    let r : Replacement := { control := some ⟨0⟩, nodes := [⟨6⟩, ⟨0⟩] }
    let first : Checkpoint := .single ⟨2⟩
    let both : Checkpoint := .multi [⟨3⟩, ⟨2⟩, ⟨3⟩]
    ((first.join both).covers g.locations ⟨3⟩ = true) ∧
      (first.join both).mayKill g.locations .identity ⟨3⟩ = true ∧
      (both.join both).locations = [⟨3⟩, ⟨2⟩] ∧
      (both.join (.single anyId)).join (both.join (.single anyId)) = .single anyId ∧
      g.checkReplacement ⟨5⟩ (some first) r = .ok () := by
  intro g r first both
  have interned : g.locations.Interned :=
    (Graph.reachable_twoStores (.field "Point" "x" .int false)
      (.field "Point" "y" .int false)).interned
  obtain ⟨hcovers, hmayKill, -, -, -, -, -, -, hreplacement⟩ :=
    interned.join_laws first both first
  obtain ⟨-, -, hcertain, -, -, -, hself, -, -⟩ := interned.join_laws both both both
  obtain ⟨-, -, -, -, -, hany, -, -, -⟩ :=
    interned.join_laws (both.join (.single anyId)) both both
  refine ⟨(hcovers ⟨3⟩).mpr (.inr rfl), ?_, hself ?_, hany ?_, ?_⟩
  · exact (hmayKill .identity (fun location =>
      (Graph.canReorder_identity_any interned.get?_anyId location).1) ⟨3⟩).mpr
      (.inr (hcertain ⟨3⟩ rfl))
  · exact mt (interned.anyId_mem_iff both).mpr (by decide)
  · exact ⟨anyId, List.mem_cons_self, interned.get?_anyId⟩
  · refine (hreplacement g ⟨5⟩ r ⟨2⟩ rfl).mpr ⟨fun site hsite => ?_, ⟨0⟩, by decide,
      .single anyId, rfl, rfl⟩
    have hsites : g.usageSites ⟨5⟩ = [⟨⟨6⟩, 0, .control⟩] := rfl
    rw [hsites, List.mem_singleton] at hsite
    rw [hsite, Graph.checkTarget_eq_ok_iff]
    exact ⟨⟨0⟩, rfl, Graph.serves_iff.mpr ⟨rfl, rfl⟩⟩

end LocationUniverse.Interned

end SeaOfNodes
