import TimedCommands.Directive.Basic

/-!
# Directive lines

The line of a directive: its keyword, time and group, and then the fields of its
action, separated by single spaces. A lattice always names its packing.
-/

namespace TimedCommands

/-- The words of a slot as written. -/
def RawSlot.words (slot : RawSlot) : List String :=
  [toString slot.command.toInt, slot.placeholder]

/-- The words of a lattice as written. -/
def LatticeSpec.words (spec : LatticeSpec) : List String :=
  spec.targets.flatMap RawSlot.words
    ++ spec.dims.map (fun dim => toString dim.toInt)
    ++ spec.origin.map RealFormat.plain.write
    ++ spec.lengths.map RealFormat.plain.write
    ++ [spec.packing.name]

/-- The words of the fields that follow the group. -/
def Action.words : Action → List String
  | createGroup => []
  | addCommand typeName placeholders => typeName :: placeholders
  | bindConstant target value => target.words ++ [value.shown]
  | bindSequence target initial increment => target.words ++ [initial.shown, increment.shown]
  | bindArgument target source => target.words ++ source.words
  | bindLattice _ spec => spec.words
  | toggleCommand command => [toString command.toInt]
  | toggleAll => []
  | switchCommand _ command => [toString command.toInt]
  | switchAll _ => []
  | executeSequence total period => [toString total.toInt, toString period.toInt]

/-- The line of a directive in the text control input. -/
def Directive.line (directive : Directive) : String :=
  String.intercalate " "
    ([directive.action.keyword.text, toString directive.time.toNat, directive.group]
      ++ directive.action.words)

end TimedCommands
