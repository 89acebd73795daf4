import TimedCommands.CommandIndex
import TimedCommands.Identifier
import TimedCommands.Lattice
import TimedCommands.Value

/-!
# Bindings

A binding turns a repetition index into the value of one argument slot. All but
references depend on the index alone; a reference is a view of another slot of the
same group and is followed when the group is resolved.
-/

namespace TimedCommands

/-- An arithmetic progression over repetitions. -/
inductive Progression where
  | integer (initial increment : Int64)
  | real (initial increment : Float)
  deriving Repr, DecidableEq

namespace Progression

/-- The progression between two bounds. Two integers step exactly, any real makes the
whole progression real, and a text bound gives none. -/
def ofValues? (initial increment : Value) : Option Progression :=
  match initial, increment with
  | .integer first, .integer step => some (integer first step)
  | _, _ => do
    let first ← initial.asReal?
    let step ← increment.asReal?
    return real first step

/-- An exact integer as a 64-bit one, if it fits. -/
def fitInteger? (number : Int) : Option Int64 :=
  if Int64.minValue.toInt ≤ number ∧ number ≤ Int64.maxValue.toInt then some (Int64.ofInt number)
  else none

/-- The value at a repetition. An integer progression has none once the offset or the
sum leaves the 64-bit range. -/
def value? (progression : Progression) (iteration : Nat) : Option Value :=
  match progression with
  | integer initial increment => do
    let offset ← fitInteger? (increment.toInt * iteration)
    let sum ← fitInteger? (initial.toInt + offset.toInt)
    return .integer sum
  | real initial increment => some (.real (initial + iteration.toFloat * increment))

/-- The shown form of a progression. -/
def shown : Progression → String
  | integer initial increment => s!"integer sequence {initial.toInt} + i*{increment.toInt}"
  | real initial increment =>
    s!"real sequence {RealFormat.plain.write initial} + i*{RealFormat.plain.write increment}"

end Progression

/-- An argument slot of a group: a command and one of its placeholders. -/
structure SlotName where
  command : CommandIndex
  placeholder : Placeholder
  deriving Repr, DecidableEq

/-- The shown form of a slot. -/
def SlotName.text (slot : SlotName) : String := s!"{slot.command.text}.{slot.placeholder}"

/-- The rule that gives a slot its value at each repetition. -/
inductive Binding where
  | constant (value : Value)
  | progression (rule : Progression)
  | reference (source : SlotName)
  | coordinate (axis : LatticeAxis)
  deriving Repr, DecidableEq

/-- The shown form of a binding. -/
def Binding.shown : Binding → String
  | constant value => s!"constant {value.shown}"
  | progression rule => rule.shown
  | reference source => s!"reference to {source.text}"
  | coordinate axis => axis.shown

end TimedCommands
