import SeaOfNodes.Storage.Arena

/-!
# Side tables

A side table keeps one value for every id of an arena without storing it in the arena's items.  It
grows when a value is changed past its end; until then an id has the default value.

`SideTable.find` is the reading that matters: it does not tell a row that was never touched from one
that holds the default.
-/

namespace SeaOfNodes

/-- A value of type `β` for every id tagged `κ`, the default unless it was changed. -/
structure SideTable (κ β : Type) where
  /-- The rows that exist, in the order of their ids. -/
  rows : Array β

namespace SideTable

variable {κ β : Type}

/-- The table without rows. -/
def empty : SideTable κ β := ⟨#[]⟩

instance : Inhabited (SideTable κ β) := ⟨empty⟩

instance [DecidableEq β] : DecidableEq (SideTable κ β) := fun ⟨xs⟩ ⟨ys⟩ =>
  decidable_of_iff (xs = ys) (by simp)

/-- The row of `id`, if the table has grown that far. -/
def get? (t : SideTable κ β) (id : ArenaId κ) : Option β := t.rows[id.index]?

variable [Inhabited β]

/-- The value of `id`. -/
def find (t : SideTable κ β) (id : ArenaId κ) : β := (t.get? id).getD default

/-- Add default rows until there are `len` of them; a table never shrinks. -/
def resize (t : SideTable κ β) (len : Nat) : SideTable κ β :=
  ⟨t.rows ++ Array.replicate (len - t.rows.size) default⟩

/-- Change the value of `id`, with as many new rows as that takes. -/
def modify (t : SideTable κ β) (id : ArenaId κ) (f : β → β) : SideTable κ β :=
  ⟨(t.resize (id.index + 1)).rows.modify id.index f⟩

@[simp] theorem find_empty (id : ArenaId κ) : (empty : SideTable κ β).find id = default := by
  simp [find, get?, empty]

theorem get?_resize (t : SideTable κ β) (len : Nat) (id : ArenaId κ) :
    (t.resize len).get? id =
      if id.index < t.rows.size then t.get? id
      else if id.index < len then some default else none := by
  simp only [get?, resize, Array.getElem?_append, Array.getElem?_replicate]
  split
  · rfl
  · congr 1
    simp only [eq_iff_iff]
    omega

/-- Growing a table changes no value. -/
@[simp] theorem find_resize (t : SideTable κ β) (len : Nat) (id : ArenaId κ) :
    (t.resize len).find id = t.find id := by
  simp only [find, get?_resize]
  split
  · rfl
  · next h =>
    have hnone : t.get? id = none := by
      simp only [get?, Array.getElem?_eq_none_iff]; omega
    rw [hnone]
    split <;> rfl

/-- A change at one id is seen there and nowhere else. -/
theorem find_modify (t : SideTable κ β) (id other : ArenaId κ) (f : β → β) :
    (t.modify id f).find other = if id = other then f (t.find other) else t.find other := by
  have hrow : (t.modify id f).get? other =
      if id.index = other.index then ((t.resize (id.index + 1)).get? other).map f
      else (t.resize (id.index + 1)).get? other := by
    simp only [modify, get?, Array.getElem?_modify]
  by_cases h : id = other
  · subst h
    have hsome : (t.resize (id.index + 1)).get? id = some (t.find id) := by
      rw [get?_resize]
      split
      · next hlt => simp [find, get?, Array.getElem?_eq_getElem hlt]
      · next hge =>
        have hnone : t.get? id = none := by
          simp only [get?, Array.getElem?_eq_none_iff]; omega
        simp [find, hnone]
    simp [find, hrow, hsome]
  · have hne : ¬ id.index = other.index := fun he => h (ArenaId.ext_index he)
    have := find_resize t (id.index + 1) other
    simp only [find] at this ⊢
    rw [hrow, if_neg hne, if_neg h, this]

end SideTable

end SeaOfNodes
