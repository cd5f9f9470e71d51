import SeaOfNodes.Location.Universe

/-!
# What accesses and barriers carry

The attributes of memory accesses before and after lowering: the location that is touched, the order
that is asked for, the barrier that the heap model selected for a store, and the machine forms of
fences, write barriers and compare-and-swap.
-/

namespace SeaOfNodes

/-- The write barrier that the heap model selects for a store. -/
inductive BarrierType where
  /-- No barrier. -/
  | none
  /-- Log the previous value before the store. -/
  | preWrite
  /-- Mark the card of the object after the store. -/
  | postWrite
  /-- What the barrier set asks for a reference stored into an array. -/
  | array
  /-- What the barrier set asks for a reference stored into a field. -/
  | field
deriving DecidableEq, Inhabited

namespace BarrierType

/-- The barrier for a store of a value of `kind`, into an array or into a field: only references
need one. -/
def forStore (kind : ValueKind) (intoArray : Bool) : BarrierType :=
  if kind.isReference then (if intoArray then array else field) else none

end BarrierType

/-- The memory order that an access asks for. -/
inductive MemoryOrder where
  /-- No order beyond that of a single thread. -/
  | plain
  /-- Sequential consistency. -/
  | volatile
deriving DecidableEq, Inhabited

namespace MemoryOrder

/-- Whether the access keeps its order against every other. -/
def isVolatile : MemoryOrder → Bool
  | volatile => true
  | plain => false

theorem isVolatile_iff {order : MemoryOrder} : order.isVolatile = true ↔ order = volatile := by
  cases order <;> simp [isVolatile]

end MemoryOrder

/-- The attributes that reads and writes share. -/
structure Access where
  /-- The location that is touched. -/
  location : LocationId
  /-- The barrier of a store. -/
  barrier : BarrierType
  /-- Whether the access checks its base for null. -/
  nullCheck : Bool
  /-- The order that the access asks for. -/
  order : MemoryOrder
deriving DecidableEq

/-- The attributes of a load or store of the machine. -/
structure RawAccess where
  /-- The location that is touched. -/
  location : LocationId
  /-- The kind that fixes the width of the access. -/
  kind : ValueKind
  /-- The order that the access asks for. -/
  order : MemoryOrder
deriving DecidableEq

/-- How the machine swaps atomically. -/
inductive SwapStrategy where
  /-- One locked instruction, a full fence by itself. -/
  | lockCmpxchg
  /-- A retry loop over a load-linked and a store-conditional. -/
  | loadLinkedStoreConditional
  /-- One instruction with acquire and release semantics. -/
  | casAcquireRelease
deriving DecidableEq, Inhabited

/-- The fences of the machine. -/
inductive Fence where
  /-- Later accesses stay behind earlier loads. -/
  | acquire
  /-- Earlier accesses stay before later stores. -/
  | release
  /-- Every earlier access stays before every later one. -/
  | full
deriving DecidableEq, Inhabited

/-- The write barriers of the collector. -/
inductive WriteBarrier where
  /-- Log the previous value before it is overwritten. -/
  | satbPre
  /-- Dirty the card of the store: of the element itself when precise, else of the object. -/
  | cardMark (precise : Bool)
deriving DecidableEq, Inhabited

end SeaOfNodes
