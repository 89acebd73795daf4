import TimedCommands.CommandTypes
import TimedCommands.Fault

/-!
# Directives

A directive is a time-stamped instruction about one group. It keeps indices, counts
and dimensions exactly as the control input gave them; range checks belong to
validation and to execution. Its line is its form in the text control input.

The fourteen keywords of the control input stand for eleven kinds of action: the rank
of a lattice and the flag that an enabling or disabling directive sets are data.
-/

namespace TimedCommands

/-- The word that starts a directive. -/
inductive Keyword where
  | createGroup
  | addCommand
  | bindConstant
  | bindSequence
  | bindArgument
  | bindLattice2d
  | bindLattice3d
  | toggleCommand
  | toggleAll
  | enableCommand
  | disableCommand
  | enableAll
  | disableAll
  | executeSequence
  deriving Repr, DecidableEq

namespace Keyword

/-- The keywords, in the order in which they are listed to a user. -/
def all : List Keyword :=
  [createGroup, addCommand, bindConstant, bindSequence, bindArgument, bindLattice2d, bindLattice3d,
   toggleCommand, toggleAll, enableCommand, disableCommand, enableAll, disableAll, executeSequence]

/-- The spelling of a keyword. -/
def text : Keyword → String
  | createGroup => "create_group"
  | addCommand => "add_command"
  | bindConstant => "bind_constant"
  | bindSequence => "bind_sequence"
  | bindArgument => "bind_argument"
  | bindLattice2d => "bind_lattice2d"
  | bindLattice3d => "bind_lattice3d"
  | toggleCommand => "toggle_command"
  | toggleAll => "toggle_all"
  | enableCommand => "enable_command"
  | disableCommand => "disable_command"
  | enableAll => "enable_all"
  | disableAll => "disable_all"
  | executeSequence => "execute_sequence"

/-- The keyword of a given spelling. -/
def ofText? (text : String) : Option Keyword := all.find? fun keyword => keyword.text = text

end Keyword

/-- A slot as written: the command index has not been checked. -/
structure RawSlot where
  command : Int64
  placeholder : Placeholder
  deriving Repr, DecidableEq

/-- A lattice as written: one target per axis, the x axis first. The lengths of the lists
have not been checked against a rank. -/
structure LatticeSpec where
  targets : List RawSlot
  dims : List Int64
  origin : List Float
  lengths : List Float
  packing : Packing
  deriving Repr, DecidableEq

/-- What a directive does to its group. -/
inductive Action where
  | createGroup
  | addCommand (typeName : String) (placeholders : List Placeholder)
  | bindConstant (target : RawSlot) (value : Value)
  | bindSequence (target : RawSlot) (initial increment : Value)
  | bindArgument (target source : RawSlot)
  | bindLattice (rank : Rank) (spec : LatticeSpec)
  | toggleCommand (command : Int64)
  | toggleAll
  | switchCommand (enabled : Bool) (command : Int64)
  | switchAll (enabled : Bool)
  | executeSequence (total period : Int64)
  deriving Repr, DecidableEq

/-- The keyword of an action. -/
def Action.keyword : Action → Keyword
  | createGroup => .createGroup
  | addCommand _ _ => .addCommand
  | bindConstant _ _ => .bindConstant
  | bindSequence _ _ _ => .bindSequence
  | bindArgument _ _ => .bindArgument
  | bindLattice .two _ => .bindLattice2d
  | bindLattice .three _ => .bindLattice3d
  | toggleCommand _ => .toggleCommand
  | toggleAll => .toggleAll
  | switchCommand true _ => .enableCommand
  | switchCommand false _ => .disableCommand
  | switchAll true => .enableAll
  | switchAll false => .disableAll
  | executeSequence _ _ => .executeSequence

/-- An action, the group it is about, and the step at which it fires. -/
structure Directive where
  time : Time
  group : GroupName
  action : Action
  deriving Repr, DecidableEq

/-- Whether reals are equal in pairs, as numbers compare. -/
def realsAgree (left right : List Float) : Bool :=
  left.length = right.length && (left.zip right).all fun (first, second) => first == second

/-- Equality of lattices as numbers compare. -/
def LatticeSpec.agrees (left right : LatticeSpec) : Bool :=
  left.targets = right.targets && left.dims = right.dims && left.packing = right.packing
    && realsAgree left.origin right.origin && realsAgree left.lengths right.lengths

/-- Equality of actions as numbers compare. -/
def Action.agrees : Action → Action → Bool
  | bindConstant target value, bindConstant otherTarget other =>
    target = otherTarget && value.agrees other
  | bindSequence target initial increment, bindSequence otherTarget otherInitial otherIncrement =>
    target = otherTarget && initial.agrees otherInitial && increment.agrees otherIncrement
  | bindLattice rank spec, bindLattice otherRank other => rank = otherRank && spec.agrees other
  | left, right => left = right

/-- Equality of directives as numbers compare: one with a real that is no number differs from
itself, and the two zeros agree. -/
def Directive.agrees (left right : Directive) : Bool :=
  left.time = right.time && left.group = right.group && left.action.agrees right.action

/-- Directives in firing order: by time, and in input order within a step. -/
def firingOrder (directives : List Directive) : List Directive :=
  directives.mergeSort fun left right => left.time ≤ right.time

namespace LatticeSpec

/-- A dimension, if it is at least one and fits 32 bits. -/
def dimension? (raw : Int64) : Option Nat :=
  if 1 ≤ raw.toInt ∧ raw.toInt ≤ maxCount then some raw.toInt.toNat else none

/-- The lattice that the lists describe, if each has one entry per axis and every dimension
is in range. -/
def lattice? (spec : LatticeSpec) (rank : Rank) : Option Lattice := do
  let dims ← spec.dims.mapM dimension?
  match rank, dims, spec.origin, spec.lengths with
  | .two, [nx, ny], [ox, oy], [lx, ly] => some (.planar nx ny ox oy lx ly spec.packing)
  | .three, [nx, ny, nz], [ox, oy, oz], [lx, ly, lz] =>
    some (.spatial ⟨nx, ny, nz⟩ ⟨ox, oy, oz⟩ ⟨lx, ly, lz⟩ spec.packing)
  | _, _, _, _ => none

/-- A checked target with the axis that it receives. -/
structure AxisBinding where
  slot : SlotName
  coordinate : LatticeAxis
  deriving Repr, DecidableEq

/-- One binding per axis, in axis order, if the lists fit the rank and every index and
dimension is in range. -/
def axisBindings? (spec : LatticeSpec) (rank : Rank) : Option (List AxisBinding) := do
  let lattice ← spec.lattice? rank
  if spec.targets.length ≠ rank.axes then none
  else
    (spec.targets.zip Axis.all).mapM fun (target, axis) => do
      let command ← CommandIndex.ofRaw? target.command
      return ⟨⟨command, target.placeholder⟩, ⟨lattice, axis⟩⟩

end LatticeSpec

end TimedCommands
