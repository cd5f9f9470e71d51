import SeaOfNodes.Value.Kind

/-!
# Location identities

Memory is divided into abstract locations: the fields of classes, the elements of arrays of one
kind, and a few locations of the runtime.  Every access names the location that it touches.

Two declarations of one location may disagree on whether it is immutable.  Mutability is therefore
not part of what makes a location the same: `LocationIdentity.asMutable` forgets it, and two
identities denote one location when they agree up to it.
-/

namespace SeaOfNodes

/-- An abstract category of memory locations. -/
inductive LocationIdentity where
  /-- Overlaps every other location. -/
  | any
  /-- The memory of an object that is freshly allocated and not yet published. -/
  | init
  /-- A declared field. -/
  | field (holder name : String) (kind : ValueKind) (immutable : Bool)
  /-- All elements of the arrays with this kind of elements. -/
  | arrayElement (kind : ValueKind)
  /-- A location internal to the runtime, such as a word of the object header. -/
  | named (name : String) (immutable : Bool)
deriving DecidableEq, Inhabited

namespace LocationIdentity

/-- Whether the identity overlaps every other. -/
def isAny : LocationIdentity → Bool
  | any => true
  | _ => false

/-- Whether the identity is freshly allocated memory. -/
def isInit : LocationIdentity → Bool
  | init => true
  | _ => false

/-- Whether the identity is a location of its own: all are but `any`. -/
def isSingle (identity : LocationIdentity) : Bool := !identity.isAny

/-- Whether the location is never written after its initialization. -/
def isImmutable : LocationIdentity → Bool
  | field _ _ _ immutable | named _ immutable => immutable
  | _ => false

/-- The identity without its mutability. -/
def asMutable : LocationIdentity → LocationIdentity
  | field holder name kind _ => field holder name kind false
  | named name _ => named name false
  | identity => identity

/-- The kind of value that the location is declared to hold. -/
def valueKind : LocationIdentity → Option ValueKind
  | field _ _ kind _ | arrayElement kind => some kind
  | _ => none

/-- Whether the location is part of an object, so that it is addressed from a reference. -/
def isHeap : LocationIdentity → Bool
  | field .. | arrayElement _ | init => true
  | _ => false

/-- Fields are written `holder.name`, array elements `kind[]`. -/
def text : LocationIdentity → String
  | any => "ANY_LOCATION"
  | init => "INIT_LOCATION"
  | field holder name _ _ => holder ++ "." ++ name
  | arrayElement kind => kind.name ++ "[]"
  | named name _ => name

@[simp] theorem asMutable_asMutable (identity : LocationIdentity) :
    identity.asMutable.asMutable = identity.asMutable := by
  cases identity <;> rfl

@[simp] theorem isImmutable_asMutable (identity : LocationIdentity) :
    identity.asMutable.isImmutable = false := by
  cases identity <;> rfl

@[simp] theorem isAny_asMutable (identity : LocationIdentity) :
    identity.asMutable.isAny = identity.isAny := by
  cases identity <;> rfl

@[simp] theorem valueKind_asMutable (identity : LocationIdentity) :
    identity.asMutable.valueKind = identity.valueKind := by
  cases identity <;> rfl

@[simp] theorem isHeap_asMutable (identity : LocationIdentity) :
    identity.asMutable.isHeap = identity.isHeap := by
  cases identity <;> rfl

@[simp] theorem text_asMutable (identity : LocationIdentity) :
    identity.asMutable.text = identity.text := by
  cases identity <;> rfl

theorem isAny_iff {identity : LocationIdentity} : identity.isAny = true ↔ identity = any := by
  cases identity <;> simp [isAny]

theorem asMutable_eq_any_iff {identity : LocationIdentity} :
    identity.asMutable = any ↔ identity = any := by
  cases identity <;> simp [asMutable]

theorem asMutable_eq_init_iff {identity : LocationIdentity} :
    identity.asMutable = init ↔ identity = init := by
  cases identity <;> simp [asMutable]

end LocationIdentity

end SeaOfNodes
