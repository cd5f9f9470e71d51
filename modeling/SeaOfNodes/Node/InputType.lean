/-!
# Input types

An edge of the graph plays one of six roles.  Every input slot declares the role of the edge that it
holds, and every node declares the roles in which other nodes may refer to it.
-/

namespace SeaOfNodes

/-- The role that an input edge plays. -/
inductive InputType where
  /-- A data value. -/
  | value
  /-- The control predecessor of a fixed node. -/
  | control
  /-- A witness of memory order: the last access of the same location. -/
  | memory
  /-- A frame state for deoptimization. -/
  | state
  /-- A condition that must hold before the user may execute. -/
  | guard
  /-- A computed address. -/
  | address
deriving DecidableEq, Inhabited

namespace InputType

/-- All input types, in the order in which they are listed everywhere. -/
def all : List InputType := [value, control, memory, state, guard, address]

/-- The type as it is written in messages. -/
def name : InputType → String
  | value => "Value"
  | control => "Control"
  | memory => "Memory"
  | state => "State"
  | guard => "Guard"
  | address => "Address"

/-- The flag that stands for the type in a set encoded as a number. -/
def flag : InputType → Nat
  | value => 1
  | control => 2
  | memory => 4
  | state => 8
  | guard => 16
  | address => 32

theorem mem_all (type : InputType) : type ∈ all := by
  cases type <;> decide

end InputType

/-- A set of input types. -/
structure InputTypes where
  /-- Whether a type is in the set. -/
  allows : InputType → Bool

namespace InputTypes

/-- The set of the types in a list. -/
def ofList (types : List InputType) : InputTypes := ⟨fun type => types.contains type⟩

/-- The members, in the order of `InputType.all`. -/
def toList (types : InputTypes) : List InputType := InputType.all.filter types.allows

/-- The set encoded as the sum of its members' flags. -/
def bits (types : InputTypes) : Nat := types.toList.foldl (fun bits type => bits + type.flag) 0

@[simp] theorem allows_ofList (types : List InputType) (type : InputType) :
    (ofList types).allows type = types.contains type := rfl

theorem mem_toList (types : InputTypes) (type : InputType) :
    type ∈ types.toList ↔ types.allows type = true := by
  simp [toList, InputType.mem_all]

end InputTypes

end SeaOfNodes
