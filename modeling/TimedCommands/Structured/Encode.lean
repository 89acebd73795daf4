import TimedCommands.Directive.Basic
import TimedCommands.Yaml.Tree

/-!
# Writing structured entries

The structured form of a directive: its time, its keyword and then its fields in the
order in which they are declared. Values keep their kind, since a tree tells
integers, reals and texts apart.
-/

namespace TimedCommands.Structured

open TimedCommands.Yaml (Tree)

/-- A named part of an entry. -/
def part (name : String) (tree : Tree) : Tree × Tree := (.text name, tree)

/-- An integer as a tree. -/
def encodeInteger (number : Int64) : Tree := .integer number.toInt

/-- A value as a tree. -/
def encodeValue : Value → Tree
  | .integer number => encodeInteger number
  | .real number => .real number
  | .text content => .text content

/-- The parts of a slot. -/
def encodeSlot (slot : RawSlot) : List (Tree × Tree) :=
  [part "command" (encodeInteger slot.command), part "placeholder" (.text slot.placeholder)]

/-- The parts of a lattice. -/
def encodeLattice (spec : LatticeSpec) : List (Tree × Tree) :=
  [part "targets" (.sequence (spec.targets.map fun target => .mapping (encodeSlot target))),
   part "dims" (.sequence (spec.dims.map encodeInteger)),
   part "origin" (.sequence (spec.origin.map Tree.real)),
   part "lengths" (.sequence (spec.lengths.map Tree.real)),
   part "packing" (.text spec.packing.name)]

/-- The parts of an action. -/
def encodeAction : Action → List (Tree × Tree)
  | .createGroup => []
  | .addCommand typeName placeholders =>
    [part "command_type" (.text typeName), part "placeholders" (.sequence (placeholders.map Tree.text))]
  | .bindConstant target value => encodeSlot target ++ [part "value" (encodeValue value)]
  | .bindSequence target initial increment =>
    encodeSlot target
      ++ [part "initial" (encodeValue initial), part "increment" (encodeValue increment)]
  | .bindArgument target source =>
    encodeSlot target
      ++ [part "source_command" (encodeInteger source.command),
          part "source_placeholder" (.text source.placeholder)]
  | .bindLattice _ spec => encodeLattice spec
  | .toggleCommand command => [part "command" (encodeInteger command)]
  | .toggleAll => []
  | .switchCommand _ command => [part "command" (encodeInteger command)]
  | .switchAll _ => []
  | .executeSequence total period =>
    [part "total" (encodeInteger total), part "period" (encodeInteger period)]

/-- The structured form of a directive. -/
def encode (directive : Directive) : Tree :=
  .mapping
    ([part "at" (.integer directive.time.toNat),
      part "directive" (.text directive.action.keyword.text),
      part "group" (.text directive.group)]
      ++ encodeAction directive.action)

end TimedCommands.Structured
