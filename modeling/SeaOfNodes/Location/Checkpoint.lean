import SeaOfNodes.Location.Alias

/-!
# Memory checkpoints

A node that writes memory is a checkpoint for the locations that it kills: what was known of them
before it holds no longer.  A checkpoint is the set of killed locations, kept as the list in which
they were named.

`Checkpoint.covers` asks what is killed for certain and `Checkpoint.mayKill` what an alias oracle
cannot exclude.  `Checkpoint.join` is the union of two checkpoints.
-/

namespace SeaOfNodes

/-- The locations that a node kills. -/
inductive Checkpoint where
  /-- One location. -/
  | single (location : LocationId)
  /-- Any number of locations. -/
  | multi (locations : List LocationId)
deriving DecidableEq, Inhabited

namespace Checkpoint

/-- The killed locations. -/
def locations : Checkpoint → List LocationId
  | single location => [location]
  | multi locations => locations

/-- Whether the checkpoint is given as one location. -/
def isSingle : Checkpoint → Bool
  | single _ => true
  | multi _ => false

/-- Whether `location` is killed for certain: it is named, or everything is killed. -/
def covers (c : Checkpoint) (u : LocationUniverse) (location : LocationId) : Bool :=
  c.locations.any fun killed => killed = location || (u.get? killed).any LocationIdentity.isAny

/-- Whether `location` is killed as far as the oracle can tell. -/
def mayKill (c : Checkpoint) (u : LocationUniverse) (oracle : AliasOracle)
    (location : LocationId) : Bool :=
  c.locations.any fun killed => !oracle.canReorder u killed location

/-- The checkpoint of a list of locations: `ANY_LOCATION` swallows all others, and a location that
is named again adds nothing. -/
def ofLocations (locations : List LocationId) : Checkpoint :=
  if LocationUniverse.anyId ∈ locations then single LocationUniverse.anyId
  else
    match locations.eraseDups with
    | [location] => single location
    | distinct => multi distinct

/-- The union of two checkpoints. -/
def join (a b : Checkpoint) : Checkpoint := ofLocations (a.locations ++ b.locations)

/-- The union of the checkpoints of a list, if there are any. -/
def joinAll : List Checkpoint → Option Checkpoint
  | [] => none
  | c :: cs => some (cs.foldl join c)

end Checkpoint

end SeaOfNodes
