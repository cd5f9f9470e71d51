/-!
# Key maps

A key map finds the value that was last stored under a key.  Nobody asks it for the order in which
the keys came in: what it answers is the value of one key (`KeyMap.get?_insert`).
-/

namespace SeaOfNodes

/-- A map from keys of type `α` to values of type `β`. -/
structure KeyMap (α β : Type) where
  /-- The keys with their values. -/
  entries : List (α × β)
  /-- No key has two values. -/
  nodup : (entries.map Prod.fst).Nodup
deriving DecidableEq

namespace KeyMap

variable {α β : Type}

/-- The map without keys. -/
def empty : KeyMap α β := ⟨[], .nil⟩

instance : Inhabited (KeyMap α β) := ⟨empty⟩

variable [DecidableEq α]

/-- The value under `key`, if there is one. -/
def get? (m : KeyMap α β) (key : α) : Option β :=
  (m.entries.find? fun entry => entry.1 = key).map Prod.snd

/-- Store `value` under `key`, in place of what was there. -/
def insert (m : KeyMap α β) (key : α) (value : β) : KeyMap α β where
  entries := (key, value) :: m.entries.filter fun entry => entry.1 ≠ key
  nodup := by
    rw [List.map_cons, List.nodup_cons]
    exact ⟨by simp, m.nodup.sublist (List.filter_sublist.map _)⟩

@[simp] theorem get?_empty (key : α) : (empty : KeyMap α β).get? key = none := rfl

/-- What is stored is seen under its key and nowhere else. -/
theorem get?_insert (m : KeyMap α β) (key other : α) (value : β) :
    (m.insert key value).get? other = if key = other then some value else m.get? other := by
  by_cases he : key = other
  · simp [get?, insert, he]
  · have hkept : ∀ entry : α × β, entry.1 ≠ key ∧ entry.1 = other ↔ entry.1 = other := by
      rintro ⟨k, v⟩
      exact ⟨And.right, fun h => ⟨fun h' => he (h'.symm.trans h), h⟩⟩
    simp only [get?, insert, List.find?_cons, List.find?_filter, he, decide_false, if_false,
      decide_eq_true_eq, hkept]

end KeyMap

end SeaOfNodes
