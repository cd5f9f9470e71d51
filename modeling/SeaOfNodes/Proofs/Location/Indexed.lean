import SeaOfNodes.Location.Universe

/-!
# The map and the arena of a location universe

A universe looks a location up in one place, its key map, and reads the location in another, its
arena.  Nothing but the calls that fill both makes them agree.  `LocationUniverse.Indexed` says that
they do: a key leads to an id exactly if the id is that of a location with this key.

Interning takes one of three paths, and each keeps the two in step.  A location that is new enters
both (`Indexed.push`).  One that is declared as it was before changes neither.  One whose
declarations disagree on mutability is overwritten in the arena while the map stays as it is, which
is harmless because it is overwritten by its key (`Indexed.redeclare`).

On the last two paths the arena is read at the id that the map has answered.  That there is a
location at this id, and the one that was asked for, is the same invariant
(`Indexed.find?_eq_some_iff`).
-/

namespace SeaOfNodes

namespace LocationUniverse

/-! ## The invariant -/

/-- The key of a location. -/
def key? (u : LocationUniverse) (id : LocationId) : Option LocationIdentity :=
  (u.get? id).map LocationIdentity.asMutable

/-- **The map and the arena agree**: a key leads to the one location that has it. -/
def Indexed (u : LocationUniverse) : Prop :=
  ∀ key id, u.interned.get? key = some id ↔ u.key? id = some key

variable {u : LocationUniverse} {a b id other : LocationId}
  {identity left right known : LocationIdentity}

theorem key?_eq_some_iff {key : LocationIdentity} :
    u.key? id = some key ↔ ∃ known, u.get? id = some known ∧ known.asMutable = key :=
  Option.map_eq_some_iff

namespace Indexed

/-- A location is found exactly if it is known up to mutability. -/
theorem find?_eq_some_iff (h : u.Indexed) :
    u.find? identity = some id ↔
      ∃ known, u.get? id = some known ∧ known.asMutable = identity.asMutable :=
  (h _ _).trans key?_eq_some_iff

/-- No two ids denote one location. -/
theorem eq_of_asMutable (h : u.Indexed) (ha : u.get? a = some left) (hb : u.get? b = some right)
    (hkey : left.asMutable = right.asMutable) : a = b := by
  have hfindA : u.find? right = some a := h.find?_eq_some_iff.mpr ⟨left, ha, hkey⟩
  have hfindB : u.find? right = some b := h.find?_eq_some_iff.mpr ⟨right, hb, rfl⟩
  exact Option.some.inj (hfindA.symm.trans hfindB)

end Indexed

/-! ## The paths of interning -/

/-- Nothing is in a universe without locations. -/
theorem indexed_empty : empty.Indexed := by
  intro key id
  simp [key?, empty, get?]

/-- **A further declaration** of a location changes nothing but its mutability: it stays immutable
if both declarations say so. -/
theorem Indexed.exists_redeclared (h : u.Indexed) (hfind : u.find? identity = some id)
    (hknown : u.get? other = some known) :
    ∃ known', (u.redeclare id identity).get? other = some known' ∧
      known'.asMutable = known.asMutable ∧
      (known'.isImmutable = true ↔
        known.isImmutable = true ∧ (id = other → identity.isImmutable = true)) := by
  rw [get?_redeclare, hknown]
  by_cases he : id = other
  · subst he
    obtain ⟨found, hfound, hsame⟩ := h.find?_eq_some_iff.mp hfind
    cases hknown.symm.trans hfound
    rw [if_pos rfl, Option.map_some]
    refine ⟨_, rfl, ?_⟩
    split
    · next hagree => simp [hagree]
    · next hdiffer => cases himm : identity.isImmutable <;> simp_all
  · rw [if_neg he]
    exact ⟨known, rfl, rfl, by simp [he]⟩

/-- A further declaration makes no location known. -/
theorem exists_of_get?_redeclare (h : (u.redeclare id identity).get? other = some known) :
    ∃ before, u.get? other = some before := by
  rw [get?_redeclare] at h
  split at h
  · obtain ⟨before, hbefore, -⟩ := Option.map_eq_some_iff.mp h
    exact ⟨before, hbefore⟩
  · exact ⟨known, h⟩

/-- The keys of the locations are what they were. -/
theorem Indexed.key?_redeclare (h : u.Indexed) (hfind : u.find? identity = some id)
    (other : LocationId) : (u.redeclare id identity).key? other = u.key? other := by
  cases hother : u.get? other with
  | none =>
      rw [key?, key?, get?_redeclare, hother]
      split <;> rfl
  | some known =>
      obtain ⟨known', hknown', hkey, -⟩ := h.exists_redeclared hfind hother
      rw [key?, key?, hother, hknown', Option.map_some, Option.map_some, hkey]

/-- **A location is declared again**: the arena may change, but not in its keys. -/
theorem Indexed.redeclare (h : u.Indexed) (hfind : u.find? identity = some id) :
    (u.redeclare id identity).Indexed := by
  intro key other
  rw [h.key?_redeclare hfind]
  exact h key other

/-- **A location is declared for the first time**: it enters the arena and the map. -/
theorem Indexed.push (h : u.Indexed) (hfind : u.find? identity = none) :
    (u.push identity).Indexed := by
  intro key id
  have hmap : (u.push identity).interned.get? key =
      if identity.asMutable = key then some u.identities.nextId else u.interned.get? key :=
    KeyMap.get?_insert _ _ _ _
  have hnew : u.key? u.identities.nextId = none :=
    Option.map_eq_none_iff.mpr (Arena.get?_nextId _)
  have hkey : (u.push identity).key? id =
      if id = u.identities.nextId then some identity.asMutable else u.key? id := by
    rw [key?, get?_push]
    split <;> rfl
  rw [hmap, hkey]
  by_cases he : identity.asMutable = key
  · -- no location had the key before, so that the new one is the only one
    subst he
    have hother : u.key? id ≠ some identity.asMutable := fun hold =>
      absurd (hfind.symm.trans ((h _ _).mpr hold)) nofun
    by_cases hid : id = u.identities.nextId <;> simp [hid, hother, eq_comm]
  · rw [if_neg he, h key id]
    by_cases hid : id = u.identities.nextId
    · rw [hid, hnew, if_pos rfl]
      simp [he]
    · rw [if_neg hid]

/-- **Interning keeps the map and the arena in step**, on each of its paths. -/
theorem Indexed.intern (h : u.Indexed) (identity : LocationIdentity) :
    (u.intern identity).2.Indexed := by
  unfold LocationUniverse.intern
  rcases hfind : u.find? identity with _ | found
  · exact h.push hfind
  · exact h.redeclare hfind

/-- The two distinguished locations are interned like all others. -/
theorem indexed_new : new.Indexed := (indexed_empty.intern .any).intern .init

/-- **Whatever is declared**, a location that is known stays known as what it is. -/
theorem Indexed.get?_intern (h : u.Indexed) (hknown : u.get? id = some known)
    (identity : LocationIdentity) :
    ∃ known', (u.intern identity).2.get? id = some known' ∧
      known'.asMutable = known.asMutable := by
  unfold LocationUniverse.intern
  rcases hfind : u.find? identity with _ | found
  · refine ⟨known, ?_, rfl⟩
    rw [get?_push, if_neg (Arena.ne_nextId_of_get? hknown), hknown]
  · obtain ⟨known', hknown', hsame, -⟩ := h.exists_redeclared hfind hknown
    exact ⟨known', hknown', hsame⟩

end LocationUniverse

end SeaOfNodes
