import SeaOfNodes.Value.Kind

/-!
# Stamps

The stamp of a node says what its result is: a value of some width, a reference, an address, or one
of the tokens that the graph threads through nodes.  Stamps are chosen when a node is built and are
neither inferred nor narrowed afterwards.

`Stamp.compatible` is the relation that decides whether two results may take each other's place.  It
is symmetric, and reflexive on every stamp but `illegal`.
-/

namespace SeaOfNodes

/-- What the result of a node is. -/
inductive Stamp where
  /-- No value: stores, barriers, guards. -/
  | void
  /-- An integer of the given width in bits. -/
  | integer (bits : Nat)
  /-- A floating-point number of the given width in bits. -/
  | float (bits : Nat)
  /-- A heap reference, `nonNull` once it is known not to be null. -/
  | object (nonNull : Bool)
  /-- A computed address. -/
  | address
  /-- The control token. -/
  | control
  /-- A frame state. -/
  | state
  /-- No result at all; it fits nowhere. -/
  | illegal
deriving DecidableEq, Inhabited

namespace Stamp

/-- The stamp of a value of the given kind in its memory width. -/
def ofKind (kind : ValueKind) : Stamp :=
  match kind with
  | .boolean | .byte | .short | .char | .int | .long => integer kind.bits
  | .float | .double => float kind.bits
  | .object => object false
  | .void => void

/-- The stamp of a value of the given kind on the operand stack. -/
def onStack (kind : ValueKind) : Stamp := ofKind kind.stackKind

/-- The result of a compare-and-swap: whether it succeeded, widened to the operand stack. -/
def swapResult : Stamp := onStack .boolean

/-- Whether two stamps describe results that may flow into the same input.  Numbers must agree in
width, references may differ in nullness, and `illegal` fits nothing, itself included. -/
def compatible : Stamp → Stamp → Bool
  | integer a, integer b => a == b
  | float a, float b => a == b
  | object _, object _ => true
  | void, void | address, address | control, control | state, state => true
  | _, _ => false

/-- Whether the result is a data value. -/
def isValue : Stamp → Bool
  | integer _ | float _ | object _ => true
  | _ => false

/-- Whether the result is an integer. -/
def isInteger : Stamp → Bool
  | integer _ => true
  | _ => false

/-- Whether the result is a heap reference. -/
def isObject : Stamp → Bool
  | object _ => true
  | _ => false

/-- Stamps are written `i32`, `f64`, `object`, `object!` when not null, and by name otherwise. -/
def text : Stamp → String
  | void => "void"
  | integer bits => "i" ++ toString bits
  | float bits => "f" ++ toString bits
  | object true => "object!"
  | object false => "object"
  | address => "address"
  | control => "control"
  | state => "state"
  | illegal => "illegal"

theorem compatible_comm (a b : Stamp) : a.compatible b = b.compatible a := by
  cases a <;> cases b <;> simp [compatible, Bool.beq_comm]

theorem compatible_self (a : Stamp) : a.compatible a = true ↔ a ≠ illegal := by
  cases a <;> simp [compatible]

theorem compatible_trans {a b c : Stamp} (hab : a.compatible b = true)
    (hbc : b.compatible c = true) : a.compatible c = true := by
  cases a <;> cases b <;> cases c <;> simp_all [compatible]

@[simp] theorem onStack_stackKind (kind : ValueKind) : onStack kind.stackKind = onStack kind := by
  simp [onStack]

end Stamp

end SeaOfNodes
