import SeaOfNodes.Storage.Arena
import SeaOfNodes.Storage.KeyMap
import SeaOfNodes.Location.Identity

/-!
# The location universe

The locations that one graph speaks of, each with an id.  Interning an identity a second time
answers the id of the first time, so that two accesses touch one location when their location ids
are equal.

A location that was declared both immutable and mutable is mutable: the universe keeps it as
immutable only as long as every declaration says so.  `ANY_LOCATION` has id 0 and `INIT_LOCATION`
id 1 in every universe.

A universe is an arena and a map beside it.  The arena has the identity of an id, as it was declared
so far; the map has the id of an identity, by the key that its mutability is not part of.  The two
change along different paths: a location that is new enters both, and one that is declared again
may change in the arena but keeps its key.
-/

namespace SeaOfNodes

/-- The tag of location ids. -/
inductive LocationTag : Type

/-- The id of an interned location. -/
abbrev LocationId := ArenaId LocationTag

/-- The interned locations of a graph. -/
structure LocationUniverse where
  /-- The identities in the order in which they were first interned. -/
  identities : Arena LocationTag LocationIdentity
  /-- The ids of the locations by their keys, which are their identities without mutability. -/
  interned : KeyMap LocationIdentity LocationId
deriving DecidableEq

namespace LocationUniverse

/-- The location that overlaps every other. -/
def anyId : LocationId := ⟨0⟩

/-- The location of freshly allocated memory. -/
def initId : LocationId := ⟨1⟩

/-- The universe without locations. -/
def empty : LocationUniverse := ⟨.empty, .empty⟩

/-- The identity of a location, if the id belongs to this universe. -/
def get? (u : LocationUniverse) (id : LocationId) : Option LocationIdentity := u.identities.get? id

/-- How many locations were interned. -/
def size (u : LocationUniverse) : Nat := u.identities.size

/-- The ids of all interned locations. -/
def ids (u : LocationUniverse) : List LocationId := u.identities.ids

/-- The id of the location that `identity` denotes, whatever its mutability. -/
def find? (u : LocationUniverse) (identity : LocationIdentity) : Option LocationId :=
  u.interned.get? identity.asMutable

/-- Give a location that is new the next id. -/
def push (u : LocationUniverse) (identity : LocationIdentity) : LocationUniverse where
  identities := u.identities.push identity
  interned := u.interned.insert identity.asMutable u.identities.nextId

/-- Record a further declaration of a known location: when it disagrees with the earlier ones on
mutability, the location is mutable from now on. -/
def redeclare (u : LocationUniverse) (id : LocationId) (identity : LocationIdentity) :
    LocationUniverse :=
  { u with
    identities := u.identities.modify id fun known =>
      if known.isImmutable = identity.isImmutable then known else identity.asMutable }

/-- The id of the location that `identity` denotes, new if the location was not known. -/
def intern (u : LocationUniverse) (identity : LocationIdentity) : LocationId × LocationUniverse :=
  match u.find? identity with
  | some id => (id, u.redeclare id identity)
  | none => (u.identities.nextId, u.push identity)

/-- The universe with the two distinguished locations only. -/
def new : LocationUniverse := ((empty.intern .any).2.intern .init).2

instance : Inhabited LocationUniverse := ⟨new⟩

/-- Intern a mutable field. -/
def field (u : LocationUniverse) (holder name : String) (kind : ValueKind) :
    LocationId × LocationUniverse :=
  u.intern (.field holder name kind false)

/-- Intern an immutable field. -/
def finalField (u : LocationUniverse) (holder name : String) (kind : ValueKind) :
    LocationId × LocationUniverse :=
  u.intern (.field holder name kind true)

/-- Intern the elements of the arrays of `kind`. -/
def arrayElement (u : LocationUniverse) (kind : ValueKind) : LocationId × LocationUniverse :=
  u.intern (.arrayElement kind)

/-- Intern a location of the runtime. -/
def named (u : LocationUniverse) (name : String) (immutable : Bool) :
    LocationId × LocationUniverse :=
  u.intern (.named name immutable)

/-- The location as text, also for an id that does not belong to this universe. -/
def describe (u : LocationUniverse) (id : LocationId) : String :=
  match u.get? id with
  | some identity => identity.text
  | none => "<unknown location " ++ id.text ++ ">"

/-- The kind of value that a location is declared to hold. -/
def valueKind (u : LocationUniverse) (id : LocationId) : Option ValueKind :=
  (u.get? id).bind LocationIdentity.valueKind

/-! ## Looking a location up -/

section

variable {u : LocationUniverse} {id other : LocationId} {identity known : LocationIdentity}

theorem lt_size_of_get? (h : u.get? id = some known) : id.index < u.size :=
  Arena.lt_size_of_get? h

@[simp] theorem get?_empty (id : LocationId) : empty.get? id = none := Arena.get?_empty id

/-- A new location is found under the next id, and every other as before. -/
theorem get?_push (u : LocationUniverse) (identity : LocationIdentity) (id : LocationId) :
    (u.push identity).get? id = if id = u.identities.nextId then some identity else u.get? id :=
  Arena.get?_push _ _ _

/-- A further declaration is seen at its location only. -/
theorem get?_redeclare (u : LocationUniverse) (id other : LocationId)
    (identity : LocationIdentity) :
    (u.redeclare id identity).get? other = if id = other then
      (u.get? other).map fun known =>
        if known.isImmutable = identity.isImmutable then known else identity.asMutable
    else u.get? other := Arena.get?_modify _ _ _ _

end

end LocationUniverse

end SeaOfNodes
