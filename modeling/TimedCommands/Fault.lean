import TimedCommands.Binding

/-!
# Faults

The ways in which a directive or a repetition can fail while a program runs. A fault
never ends a run: the directive or repetition that caused it is skipped and reported.
-/

namespace TimedCommands

/-- Why a directive or a repetition failed. -/
inductive Fault where
  | duplicateGroup (group : GroupName)
  | groupNotFound (group : GroupName)
  | unknownCommandType (typeName : String)
  | arityMismatch (typeName : String) (expected found : Nat)
  | duplicatePlaceholder (placeholder : Placeholder)
  | unknownSlot (slot : SlotName)
  | commandNotFound (command : CommandIndex)
  | invalidCommandIndex (raw : Int64)
  | invalidSequence (initial increment : Value)
  | invalidRepetitionCount (raw : Int64)
  | invalidPeriod (raw : Int64)
  | invalidLattice (rank : Rank)
  | unboundSlot (slot : SlotName)
  | cyclicReference (path : List SlotName)
  | sequenceOverflow (slot : SlotName) (iteration : Nat)
  deriving Repr, DecidableEq

/-- The name of a fault. -/
def Fault.name : Fault → String
  | duplicateGroup _ => "DuplicateGroupName"
  | groupNotFound _ => "GroupNotFound"
  | unknownCommandType _ => "UnknownCommandType"
  | arityMismatch _ _ _ => "ArityMismatch"
  | duplicatePlaceholder _ => "DuplicatePlaceholder"
  | unknownSlot _ => "UnknownCommandOrPlaceholder"
  | commandNotFound _ => "CommandNotFound"
  | invalidCommandIndex _ => "InvalidCommandIndex"
  | invalidSequence _ _ => "InvalidSequence"
  | invalidRepetitionCount _ => "InvalidRepetitionCount"
  | invalidPeriod _ => "InvalidPeriod"
  | invalidLattice _ => "InvalidLattice"
  | unboundSlot _ => "UnboundPlaceholder"
  | cyclicReference _ => "CyclicBinding"
  | sequenceOverflow _ _ => "SequenceOverflow"

/-- The wording of a fault. -/
def Fault.message : Fault → String
  | duplicateGroup group => s!"command group '{group}' already exists"
  | groupNotFound group => s!"command group not found: {group}"
  | unknownCommandType typeName =>
    s!"command type '{typeName}' cannot be used in a command group"
  | arityMismatch typeName expected found =>
    s!"command type '{typeName}' takes {expected} arguments, got {found} placeholders"
  | duplicatePlaceholder placeholder => s!"placeholder '{placeholder}' declared more than once"
  | unknownSlot slot => s!"no placeholder '{slot.placeholder}' on command {slot.command.text}"
  | commandNotFound command => s!"command {command.text} not found in group"
  | invalidCommandIndex raw => s!"invalid command index {raw.toInt}, indices start at 1"
  | invalidSequence initial increment =>
    s!"sequence bounds must be numeric, got {initial.shown} and {increment.shown}"
  | invalidRepetitionCount raw =>
    s!"repetition count must be between 1 and {maxCount}, got {raw.toInt}"
  | invalidPeriod raw => s!"repetition period must not be negative, got {raw.toInt}"
  | invalidLattice rank =>
    s!"lattice binding does not describe a {rank.axes}D lattice with positive dimensions"
  | unboundSlot slot =>
    s!"placeholder '{slot.placeholder}' on command {slot.command.text} has no binding"
  | cyclicReference path =>
    "cyclic argument reference: " ++ String.intercalate " -> " (path.map SlotName.text)
  | sequenceOverflow slot iteration =>
    s!"sequence for '{slot.placeholder}' on command {slot.command.text} overflows at iteration {iteration}"

end TimedCommands
