import SeaOfNodes.Proofs.Graph.Invariance
import SeaOfNodes.Proofs.Location.Interning

/-!
# Universes that calls fill

A location universe is interned when it is what calls have made of a new one.  All that is known of
such universes comes from the ledger of the calls.  Its readings here are about the universe alone:
which id is that of the location that overlaps every other (`Interned.isAny_iff`), and that the key
map and the arena agree (`Interned.indexed`), so that no two ids denote one location.

The universe of a graph is interned as long as the graph came about by a run, since no change of a
graph other than a call touches its locations (**`Graph.Reaches.interned`**).
-/

namespace SeaOfNodes

/-- The universe is what some calls have made of a new one. -/
def LocationUniverse.Interned (u : LocationUniverse) : Prop :=
  ∃ calls : List Declaration, u = (Ledger.ofCalls calls).locations

namespace LocationUniverse

variable {u : LocationUniverse} {id : LocationId} {known : LocationIdentity}

theorem interned_new : new.Interned := ⟨[], rfl⟩

/-- One more call. -/
theorem Interned.intern (h : u.Interned) (identity : LocationIdentity) :
    (u.intern identity).2.Interned := by
  obtain ⟨calls, rfl⟩ := h
  refine ⟨calls ++ [.intern identity], ?_⟩
  unfold Ledger.ofCalls
  rw [List.foldl_append, List.foldl_cons, List.foldl_nil, Ledger.record_eq]
  rfl

namespace Interned

/-- `ANY_LOCATION` is declared in every universe, and no other location overlaps every other. -/
theorem isAny_iff (h : u.Interned) (hknown : u.get? id = some known) :
    known.isAny = true ↔ id = anyId := by
  obtain ⟨calls, rfl⟩ := h
  exact (Ledger.consistent_ofCalls calls).isAny_iff (Ledger.entries_new_subset calls (by decide))
    hknown

theorem get?_anyId (h : u.Interned) : u.get? anyId = some .any := by
  obtain ⟨calls, rfl⟩ := h
  obtain ⟨known, hknown, hkey⟩ := (Ledger.consistent_ofCalls calls).denotes ⟨.any, anyId⟩
    (Ledger.entries_new_subset calls (by decide))
  rw [hknown, LocationIdentity.asMutable_eq_any_iff.mp hkey]

/-- The key map and the arena agree. -/
theorem indexed (h : u.Interned) : u.Indexed := by
  obtain ⟨calls, rfl⟩ := h
  exact (Ledger.consistent_ofCalls calls).indexed

end Interned

end LocationUniverse

namespace Graph

variable {admits : Node → Prop} {g g' : Graph} {label : Option NodeId}

theorem SameFrame.interned (frame : SameFrame g g') (h : g.locations.Interned) :
    g'.locations.Interned := by
  rw [frame.locations]
  exact h

/-- A change interns a location, or it does not touch the locations at all. -/
theorem Change.interned (h : Change admits g label g') (interned : g.locations.Interned) :
    g'.locations.Interned := by
  cases h with
  | intern identity => exact interned.intern identity
  | insert => exact (sameFrame_registerInputs _ _).interned interned
  | attach => exact (sameFrame_registerInputs _ _).interned interned
  | move => exact (g.sameFrame_relinkAll _ _ _).interned interned
  | delete | retire => exact (g.sameFrame_bury _ _).interned interned
  | allocate | append | erase | mark | bci => exact interned

/-- **The locations of a graph that a run leads to are those that its calls have declared.** -/
theorem Reaches.interned (h : Reaches admits new g) : g.locations.Interned := by
  have hchanges := h.changes balanced_new
  clear h
  induction hchanges with
  | refl => exact LocationUniverse.interned_new
  | tail _ change ih =>
      obtain ⟨label, change⟩ := change
      exact change.interned ih

end Graph

end SeaOfNodes
