import SeaOfNodes.Location.Checkpoint

/-!
# What joint checkpoints cover

Joining checkpoints is the union of what they kill, as far as `Checkpoint.covers` can tell:
`covers_join`, and `any_covers_joinAll` for a list of them.  Neither that `ANY_LOCATION` swallows
the others nor that repetitions are dropped changes it, in a universe that knows `ANY_LOCATION`, as
every universe of a graph does.
-/

namespace SeaOfNodes

namespace Checkpoint

variable {u : LocationUniverse} {a b c : Checkpoint} {location : LocationId}

/-- The locations of a checkpoint: `ANY_LOCATION` alone, or each of those named once. -/
theorem locations_ofLocations (named : List LocationId) :
    (ofLocations named).locations =
      if LocationUniverse.anyId ∈ named then [LocationUniverse.anyId] else named.eraseDups := by
  unfold ofLocations
  split
  · rfl
  · split
    · next hsingle => rw [hsingle]; rfl
    · rfl

/-- Swallowing and dropping makes no difference to a test that `ANY_LOCATION` passes. -/
theorem any_ofLocations {p : LocationId → Bool} (hany : p LocationUniverse.anyId = true)
    (named : List LocationId) : (ofLocations named).locations.any p = named.any p := by
  rw [locations_ofLocations, Bool.eq_iff_iff, List.any_eq_true, List.any_eq_true]
  split
  · next hmem =>
    exact iff_of_true ⟨_, List.mem_singleton_self _, hany⟩ ⟨_, hmem, hany⟩
  · simp only [List.mem_eraseDups]

/-- **A join covers what either part covers.** -/
theorem covers_join (hany : u.get? LocationUniverse.anyId = some .any) :
    (a.join b).covers u location = (a.covers u location || b.covers u location) := by
  unfold covers join
  rw [any_ofLocations (by rw [hany]; exact Bool.or_true _), List.any_append]

theorem covers_foldl_join (hany : u.get? LocationUniverse.anyId = some .any)
    (cs : List Checkpoint) (c : Checkpoint) :
    (cs.foldl join c).covers u location =
      (c.covers u location || cs.any (·.covers u location)) := by
  induction cs generalizing c with
  | nil => rw [List.foldl_nil, List.any_nil, Bool.or_false]
  | cons d cs ih => rw [List.foldl_cons, ih, covers_join hany, List.any_cons, Bool.or_assoc]

/-- **A join of many covers what any of them covers**, and nothing else. -/
theorem any_covers_joinAll (hany : u.get? LocationUniverse.anyId = some .any)
    (cs : List Checkpoint) :
    (joinAll cs).any (·.covers u location) = cs.any (·.covers u location) := by
  cases cs with
  | nil => rfl
  | cons c cs =>
      rw [joinAll, Option.any_some, covers_foldl_join hany, List.any_cons]

end Checkpoint

end SeaOfNodes
