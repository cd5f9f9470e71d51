/-!
# Value kinds

What a memory location holds: one of the primitive types of the source language, a heap reference,
or nothing.  A kind fixes the width of a value in memory; on the operand stack the integers below 32
bits are widened to `int`.
-/

namespace SeaOfNodes

/-- The kind of a value that is stored in, or swapped at, a memory location. -/
inductive ValueKind where
  | boolean
  | byte
  | short
  | char
  | int
  | long
  | float
  | double
  /-- A heap reference. -/
  | object
  | void
deriving DecidableEq, Inhabited

namespace ValueKind

/-- The number by which a kind is encoded. -/
def code : ValueKind → Nat
  | boolean => 0
  | byte => 1
  | short => 2
  | char => 3
  | int => 4
  | long => 5
  | float => 6
  | double => 7
  | object => 8
  | void => 9

/-- The kind of the value on the operand stack: integers below 32 bits widen to `int`. -/
def stackKind : ValueKind → ValueKind
  | boolean | byte | short | char => int
  | kind => kind

/-- The width of the value in memory, in bits.  References are as wide as pointers. -/
def bits : ValueKind → Nat
  | boolean | byte => 8
  | short | char => 16
  | int | float => 32
  | long | double | object => 64
  | void => 0

/-- Whether the value is a heap reference. -/
def isReference : ValueKind → Bool
  | object => true
  | _ => false

/-- The kind as it is written in the source language. -/
def name : ValueKind → String
  | boolean => "boolean"
  | byte => "byte"
  | short => "short"
  | char => "char"
  | int => "int"
  | long => "long"
  | float => "float"
  | double => "double"
  | object => "object"
  | void => "void"

@[simp] theorem stackKind_stackKind (kind : ValueKind) :
    kind.stackKind.stackKind = kind.stackKind := by
  cases kind <;> rfl

end ValueKind

end SeaOfNodes
