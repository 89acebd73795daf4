import TimedCommands.Directive.Basic
import TimedCommands.Structured.Problem

/-!
# Fields of structured entries

How each kind of field is read from a tree. Integers must be integers, but a real may
be written without a point; names must be texts. A choice may be given by its name or
by its number, and a lattice target by its two fields or as a pair.
-/

namespace TimedCommands.Structured

open TimedCommands.Yaml (Tree)

/-- Reads a tree as a value of a type, or answers the problem with it. -/
abbrev Reader (α : Type) := Tree → Except Problem α

/-- Reads an unsigned 64-bit integer. -/
def readTime : Reader Time
  | .integer number =>
    if 0 ≤ number ∧ number < UInt64.size then .ok (UInt64.ofNat number.toNat)
    else .error (.wrongValue (.integer number) "u64")
  | other => .error (.wrongType other "u64")

/-- Reads a signed 64-bit integer. -/
def readInteger : Reader Int64
  | .integer number =>
    match Progression.fitInteger? number with
    | some fitting => .ok fitting
    | none => .error (.wrongValue (.integer number) "i64")
  | other => .error (.wrongType other "i64")

/-- Reads a real, which may be written as an integer. -/
def readReal : Reader Float
  | .integer number => .ok (Decimal.nearestReal number)
  | .real number => .ok number
  | other => .error (.wrongType other "f64")

/-- Reads a text. -/
def readName : Reader String
  | .text content => .ok content
  | other => .error (.wrongType other "a string")

/-- Reads a value: an integer if it fits 64 bits, else a real or a text. -/
def readValue : Reader Value
  | .integer number =>
    match Progression.fitInteger? number with
    | some fitting => .ok (.integer fitting)
    | none => .ok (.real (Decimal.nearestReal number))
  | .real number => .ok (.real number)
  | .text content => .ok (.text content)
  | _ => .error .noValue

/-- Reads the items of a sequence. -/
def readItems {α : Type} (readItem : Reader α) : Reader (List α)
  | .sequence items => items.mapM readItem
  | other => .error (.wrongType other "a sequence")

/-- Reads one of several choices by its name or number. -/
def readVariant {α : Type} (choices : List α) (name : α → String) : Reader α
  | .text content =>
    match choices.find? fun choice => name choice = content with
    | some choice => .ok choice
    | none => .error (.unknownVariant content (choices.map name))
  | .integer number =>
    if number < 0 then .error (.wrongType (.integer number) "variant identifier")
    else match choices[number.toNat]? with
      | some choice => .ok choice
      | none =>
        .error (.wrongValue (.integer number) s!"variant index 0 <= i < {choices.length}")
  | other => .error (.wrongType other "variant identifier")

/-- Reads a packing: its name, or a mapping from its name or number to null. -/
def readPacking : Reader Packing
  | .text content => readVariant [.rectangular, .triangular] Packing.name (.text content)
  | .mapping [(key, value)] => do
    let packing ← readVariant [.rectangular, .triangular] Packing.name key
    match value with
    | .null => return packing
    | other => throw (.wrongType other "unit")
  | .mapping entries => .error (.wrongValue (.mapping entries) "map with a single key")
  | other => .error (.wrongType other "string or map")

/-- The fields of a lattice target. -/
inductive TargetField where
  | command
  | placeholder
  | unknown
  deriving Repr, DecidableEq

/-- Reads the key of a lattice target's field: its name or number. -/
def readTargetField : Reader TargetField
  | .text "command" => .ok .command
  | .text "placeholder" => .ok .placeholder
  | .text _ => .ok .unknown
  | .integer number =>
    if number < 0 then .error (.wrongType (.integer number) "field identifier")
    else if number = 0 then .ok .command
    else if number = 1 then .ok .placeholder
    else .ok .unknown
  | other => .error (.wrongType other "field identifier")

/-- Reads the fields of a lattice target in the order in which they stand. -/
def readTargetFields (command : Option Int64) (placeholder : Option Placeholder) :
    List (Tree × Tree) → Except Problem RawSlot
  | [] =>
    match command, placeholder with
    | none, _ => .error (.missingField "command")
    | some _, none => .error (.missingField "placeholder")
    | some command, some placeholder => .ok ⟨command, placeholder⟩
  | (key, value) :: rest => do
    match ← readTargetField key with
    | .command =>
      if command.isSome then throw (.duplicateField "command")
      else
        let number ← readInteger value
        readTargetFields (some number) placeholder rest
    | .placeholder =>
      if placeholder.isSome then throw (.duplicateField "placeholder")
      else
        let name ← readName value
        readTargetFields command (some name) rest
    | .unknown => readTargetFields command placeholder rest

/-- Reads a lattice target: a mapping with its two fields, or a pair of them. -/
def readTarget : Reader RawSlot
  | .mapping entries => readTargetFields none none entries
  | .sequence items => do
    let short := fun length => Problem.wrongLength length "struct AxisTarget with 2 elements"
    match items with
    | [] => throw (short 0)
    | [command] => do
      let _ ← readInteger command
      throw (short 1)
    | command :: placeholder :: rest => do
      let number ← readInteger command
      let name ← readName placeholder
      if rest = [] then return ⟨number, name⟩
      else throw (.wrongLength items.length "2 elements in sequence")
  | other => .error (.wrongType other "struct AxisTarget")

end TimedCommands.Structured
