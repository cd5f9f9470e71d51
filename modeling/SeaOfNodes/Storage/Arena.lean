/-!
# Arenas

Nodes and locations live in append-only arenas and are referred to by their position.  An item is
never removed: a node that leaves the graph keeps its place, so an id means the same item for as
long as the arena exists.

## Main definitions

* `ArenaId κ` — a position in an arena.  The tag `κ` has no values that matter; it keeps the ids of
  different arenas apart, so that a location id cannot be passed for a node id.
* `Arena κ α` — the items, in the order of their allocation.

Each operation is described by what it does to `Arena.get?` and `Arena.size`; nothing else needs to
be known about an arena.

### Assumption

An id is kept in 32 bits.  Here it is a natural number, on the assumption that an arena holds fewer
than `2 ^ 32` items: as long as it does, `Arena.nextId` fits and no two items have one id.  With
more items ids would come round again, and nothing that is said of graphs and locations covers that.
-/

namespace SeaOfNodes

/-- A position in an arena, tagged with what the arena holds. -/
structure ArenaId (κ : Type) where
  /-- How many items were allocated before the one meant. -/
  index : Nat
deriving Inhabited

namespace ArenaId

variable {κ : Type}

theorem ext_index {a b : ArenaId κ} (h : a.index = b.index) : a = b := by
  cases a; cases b; cases h; rfl

theorem index_inj {a b : ArenaId κ} : a.index = b.index ↔ a = b :=
  ⟨ext_index, fun h => h ▸ rfl⟩

/-- Ids are equal when their positions are; the tag need not be comparable. -/
instance : DecidableEq (ArenaId κ) := fun _ _ => decidable_of_iff _ index_inj

/-- The test for equality that comes with it is lawful. -/
instance : LawfulBEq (ArenaId κ) := inferInstance

instance : Ord (ArenaId κ) := ⟨fun a b => compare a.index b.index⟩

/-- Ids are written `#0`, `#1`, … -/
def text (id : ArenaId κ) : String := "#" ++ toString id.index

end ArenaId

/-- Append-only storage of `α`s, addressed by ids tagged `κ`. -/
structure Arena (κ α : Type) where
  /-- The items in allocation order. -/
  items : Array α

namespace Arena

variable {κ α : Type}

/-- The arena that holds nothing. -/
def empty : Arena κ α := ⟨#[]⟩

instance : Inhabited (Arena κ α) := ⟨empty⟩

instance [DecidableEq α] : DecidableEq (Arena κ α) := fun ⟨xs⟩ ⟨ys⟩ =>
  decidable_of_iff (xs = ys) (by simp)

/-- How many items were ever allocated. -/
def size (a : Arena κ α) : Nat := a.items.size

/-- The id that the next allocation receives; it fits in 32 bits in an arena that is not full. -/
def nextId (a : Arena κ α) : ArenaId κ := ⟨a.size⟩

/-- Allocate `x` at `a.nextId`. -/
def push (a : Arena κ α) (x : α) : Arena κ α := ⟨a.items.push x⟩

/-- The item at `id`, if `id` was allocated here. -/
def get? (a : Arena κ α) (id : ArenaId κ) : Option α := a.items[id.index]?

/-- Whether `id` was allocated here. -/
def contains (a : Arena κ α) (id : ArenaId κ) : Bool := id.index < a.size

/-- Change the item at `id`; an id from elsewhere changes nothing. -/
def modify (a : Arena κ α) (id : ArenaId κ) (f : α → α) : Arena κ α := ⟨a.items.modify id.index f⟩

/-- All ids, in allocation order. -/
def ids (a : Arena κ α) : List (ArenaId κ) := (List.range a.size).map ArenaId.mk

/-- All items with their ids, in allocation order. -/
def entries (a : Arena κ α) : List (ArenaId κ × α) :=
  a.ids.filterMap fun id => (a.get? id).map (id, ·)

@[simp] theorem size_empty : (empty : Arena κ α).size = 0 := rfl

@[simp] theorem size_push (a : Arena κ α) (x : α) : (a.push x).size = a.size + 1 := by
  simp [size, push]

@[simp] theorem size_modify (a : Arena κ α) (id : ArenaId κ) (f : α → α) :
    (a.modify id f).size = a.size := by
  simp [size, modify]

@[simp] theorem nextId_index (a : Arena κ α) : a.nextId.index = a.size := rfl

@[simp] theorem get?_empty (id : ArenaId κ) : (empty : Arena κ α).get? id = none := by
  simp [get?, empty]

/-- Allocation fills the next id and leaves every other id as it was. -/
theorem get?_push (a : Arena κ α) (x : α) (id : ArenaId κ) :
    (a.push x).get? id = if id = a.nextId then some x else a.get? id := by
  simp only [get?, push, Array.getElem?_push, ← ArenaId.index_inj, nextId_index, size]

/-- A change at one id is seen there and nowhere else. -/
theorem get?_modify (a : Arena κ α) (id other : ArenaId κ) (f : α → α) :
    (a.modify id f).get? other = if id = other then (a.get? other).map f else a.get? other := by
  simp only [get?, modify, Array.getElem?_modify, ← ArenaId.index_inj]

theorem get?_eq_none_iff (a : Arena κ α) (id : ArenaId κ) :
    a.get? id = none ↔ a.size ≤ id.index := by
  simp [get?, size]

theorem lt_size_of_get? {a : Arena κ α} {id : ArenaId κ} {x : α} (h : a.get? id = some x) :
    id.index < a.size := by
  have : ¬ a.size ≤ id.index := fun hle => by
    rw [(get?_eq_none_iff a id).mpr hle] at h; cases h
  omega

/-- What is allocated next is not there yet. -/
@[simp] theorem get?_nextId (a : Arena κ α) : a.get? a.nextId = none :=
  (get?_eq_none_iff _ _).mpr (Nat.le_refl _)

theorem ne_nextId_of_get? {a : Arena κ α} {id : ArenaId κ} {x : α} (h : a.get? id = some x) :
    id ≠ a.nextId := by
  rintro rfl
  rw [get?_nextId] at h
  cases h

theorem mem_ids (a : Arena κ α) (id : ArenaId κ) : id ∈ a.ids ↔ id.index < a.size := by
  simp only [ids, List.mem_map, List.mem_range]
  constructor
  · rintro ⟨i, hi, rfl⟩; exact hi
  · intro h; exact ⟨id.index, h, rfl⟩

end Arena

end SeaOfNodes
