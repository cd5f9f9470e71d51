import SeaOfNodes.Node.Access

/-!
# What lowering depends on

The target machine and the barrier set of the collector decide what an access is lowered to.  The
rules that turn the barrier selected for a store into the barriers that are emitted before and after
it are here as well: they are functions of the configuration alone.
-/

namespace SeaOfNodes

/-- The family of the target machine. -/
inductive Platform where
  /-- Total store order and locked instructions. -/
  | x64
  /-- A weakly ordered machine, with single-instruction atomics if `lse`. -/
  | aarch64 (lse : Bool)
deriving DecidableEq, Inhabited

namespace Platform

/-- The platform that code is compiled for unless another is chosen. -/
def host : Platform := x64

/-- Whether plain loads acquire and plain stores release, so that only a full fence adds order. -/
def isTso : Platform → Bool
  | x64 => true
  | aarch64 _ => false

/-- How the machine swaps atomically. -/
def swapStrategy : Platform → SwapStrategy
  | x64 => .lockCmpxchg
  | aarch64 true => .casAcquireRelease
  | aarch64 false => .loadLinkedStoreConditional

end Platform

/-- The write barriers that the collector asks for. -/
inductive BarrierSet where
  /-- None at all. -/
  | none
  /-- Cards are marked after reference stores. -/
  | cardTable
  /-- The previous value is logged before a reference store, and cards are marked after it. -/
  | g1
deriving DecidableEq, Inhabited

namespace BarrierSet

/-- Whether reference stores log the previous value. -/
def hasPreBarrier : BarrierSet → Bool
  | g1 => true
  | none | cardTable => false

/-- Whether reference stores mark cards. -/
def hasPostBarrier : BarrierSet → Bool
  | none => false
  | cardTable | g1 => true

end BarrierSet

/-- The order in which lowerable nodes are visited. -/
inductive Traversal where
  /-- A node after its predecessors in control flow. -/
  | controlFlow
  /-- In allocation order. -/
  | creation
deriving DecidableEq, Inhabited

/-- The traversal by name. -/
def Traversal.name : Traversal → String
  | controlFlow => "control-flow"
  | creation => "creation"

/-- What lowering depends on. -/
structure LoweringConfig where
  /-- The target machine. -/
  platform : Platform := .host
  /-- What the collector asks for. -/
  barrierSet : BarrierSet := .cardTable
  /-- Whether initializing writes go without a pre-barrier: they overwrite no valid value. -/
  elideInitializingBarriers : Bool := true
  /-- The order in which lowerable nodes are visited. -/
  traversal : Traversal := .controlFlow
  /-- Whether the graph is verified after all nodes were lowered. -/
  verifyAfterLowering : Bool := true
deriving DecidableEq, Inhabited

namespace LoweringConfig

/-- A configuration that does not depend on the host: total store order, both kinds of barriers. -/
def forTesting : LoweringConfig := { platform := .x64, barrierSet := .g1 }

/-- The same on a weakly ordered machine. -/
def aarch64 (lse : Bool) : LoweringConfig := { forTesting with platform := .aarch64 lse }

/-- The barrier before a store, if it needs one. -/
def preBarrier (config : LoweringConfig) (barrier : BarrierType) (initialization : Bool) :
    Option WriteBarrier :=
  if initialization && config.elideInitializingBarriers then
    none
  else
    match barrier with
    | .preWrite => if config.barrierSet = .none then none else some .satbPre
    | .field | .array => if config.barrierSet.hasPreBarrier then some .satbPre else none
    | .none | .postWrite => none

/-- The barrier after a store, if it needs one.  A store into an array marks the card of the element
itself. -/
def postBarrier (config : LoweringConfig) (barrier : BarrierType) : Option WriteBarrier :=
  if config.barrierSet.hasPostBarrier then
    match barrier with
    | .postWrite | .field => some (.cardMark false)
    | .array => some (.cardMark true)
    | .none | .preWrite => none
  else
    none

end LoweringConfig

end SeaOfNodes
