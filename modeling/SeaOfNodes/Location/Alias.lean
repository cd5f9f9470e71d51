import SeaOfNodes.Location.Universe

/-!
# Alias queries

Whether two locations can be told apart.  The answer comes from an oracle, so that a client with a
finer alias analysis can bring its own; `AliasOracle.identity` is the one that needs nothing but the
universe.  An oracle answers `unknown` when in doubt, and only `disjoint` permits two accesses to
exchange order.
-/

namespace SeaOfNodes

/-- How two locations lie to each other. -/
inductive AliasRelation where
  /-- Provably one location. -/
  | same
  /-- Provably two locations without overlap. -/
  | disjoint
  /-- Neither is known. -/
  | unknown
deriving DecidableEq, Inhabited

namespace AliasRelation

/-- Whether accesses to the two locations may exchange order. -/
def permitsReorder : AliasRelation → Bool
  | disjoint => true
  | _ => false

/-- Whether the two locations must be taken to overlap. -/
def mayOverlap (r : AliasRelation) : Bool := !r.permitsReorder

end AliasRelation

/-- An alias analysis: what it knows about two locations, and whether accesses to them may exchange
order.  The second answer follows from the first unless an analysis knows better. -/
structure AliasOracle where
  /-- How two locations lie to each other. -/
  relation : LocationUniverse → LocationId → LocationId → AliasRelation
  /-- Whether accesses to the two locations may exchange order. -/
  canReorder : LocationUniverse → LocationId → LocationId → Bool :=
    fun u a b => (relation u a b).permitsReorder

namespace AliasOracle

/-- The oracle that compares identities: different locations are disjoint, unless one of them is
`ANY_LOCATION` or does not belong to the universe. -/
def identity : AliasOracle where
  relation u a b :=
    match u.get? a, u.get? b with
    | some left, some right =>
      if left.isAny || right.isAny then .unknown
      else if a = b then .same
      else .disjoint
    | _, _ => .unknown

end AliasOracle

end SeaOfNodes
