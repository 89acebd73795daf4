import TimedCommands.Number.RealText

/-!
# Lattices

A lattice is a regular grid of points in two or three dimensions. A repetition index
selects a point by mixed-radix decomposition, the x axis running fastest, and wraps
after the last point. The origin is the corner at index zero. Triangular packing
shifts odd rows by half the x spacing and, in three dimensions, odd layers by half
the y spacing.

A planar lattice is one with a single layer of no height, so both ranks share the
same geometry and only the rank itself tells whether the z axis exists.
-/

namespace TimedCommands

/-- The axes of a lattice. -/
inductive Axis where
  | x
  | y
  | z
  deriving Repr, DecidableEq

namespace Axis

/-- The axes in order. -/
def all : List Axis := [x, y, z]

/-- The position of an axis in the order. -/
def position : Axis → Nat
  | x => 0
  | y => 1
  | z => 2

/-- The name of an axis. -/
def name : Axis → String
  | x => "x"
  | y => "y"
  | z => "z"

end Axis

/-- How successive rows are packed. -/
inductive Packing where
  | rectangular
  | triangular
  deriving Repr, DecidableEq

namespace Packing

/-- The packing of a lattice that names none. -/
def standard : Packing := rectangular

/-- The name of a packing. -/
def name : Packing → String
  | rectangular => "rectangular"
  | triangular => "triangular"

/-- The packing of a given name, which must match in case. -/
def ofName? (text : String) : Option Packing :=
  [rectangular, triangular].find? fun packing => packing.name = text

end Packing

/-- The number of dimensions of a lattice. -/
inductive Rank where
  | two
  | three
  deriving Repr, DecidableEq

namespace Rank

/-- The number of axes. -/
def axes : Rank → Nat
  | two => 2
  | three => 3

/-- The rank with a given number of axes. -/
def ofNat? : Nat → Option Rank
  | 2 => some two
  | 3 => some three
  | _ => none

end Rank

/-- One number for each axis. -/
structure Triple (α : Type) where
  x : α
  y : α
  z : α
  deriving Repr, DecidableEq

namespace Triple

/-- The component along an axis. -/
def get {α : Type} (triple : Triple α) : Axis → α
  | .x => triple.x
  | .y => triple.y
  | .z => triple.z

end Triple

/-- A regular grid of points. Every dimension counts as at least one. -/
structure Lattice where
  rank : Rank
  dims : Triple Nat
  origin : Triple Float
  lengths : Triple Float
  packing : Packing
  deriving Repr, DecidableEq

namespace Lattice

/-- A lattice in the plane: a single layer of no height. -/
def planar (nx ny : Nat) (ox oy lx ly : Float) (packing : Packing) : Lattice where
  rank := .two
  dims := ⟨max nx 1, max ny 1, 1⟩
  origin := ⟨ox, oy, 0.0⟩
  lengths := ⟨lx, ly, 0.0⟩
  packing

/-- A lattice in space. -/
def spatial (dims : Triple Nat) (origin lengths : Triple Float) (packing : Packing) : Lattice where
  rank := .three
  dims := ⟨max dims.x 1, max dims.y 1, max dims.z 1⟩
  origin
  lengths
  packing

/-- The number of distinct points before indices wrap. -/
def pointCount (lattice : Lattice) : Nat := lattice.dims.x * lattice.dims.y * lattice.dims.z

/-- The distance between neighbouring points along an axis. -/
def spacing (lattice : Lattice) (axis : Axis) : Float :=
  lattice.lengths.get axis / (lattice.dims.get axis).toFloat

/-- Whether an axis exists on the lattice. -/
def hasAxis (lattice : Lattice) (axis : Axis) : Bool := axis.position < lattice.rank.axes

/-- The grid cell that a repetition selects, the x axis running fastest. -/
def cell (lattice : Lattice) (iteration : Nat) : Triple Nat where
  x := iteration % lattice.dims.x
  y := iteration / lattice.dims.x % lattice.dims.y
  z := iteration / (lattice.dims.x * lattice.dims.y) % lattice.dims.z

/-- The coordinates of the grid cell before packing shifts it. -/
def corner (lattice : Lattice) (cell : Triple Nat) (axis : Axis) : Float :=
  lattice.origin.get axis + (cell.get axis).toFloat * lattice.spacing axis

/-- Whether packing shifts the x coordinate of a cell: an odd row of a triangular lattice. -/
def shiftsRow (lattice : Lattice) (cell : Triple Nat) : Bool :=
  lattice.packing = .triangular && cell.y % 2 = 1

/-- Whether packing shifts the y coordinate of a cell: an odd layer of a triangular lattice. -/
def shiftsLayer (lattice : Lattice) (cell : Triple Nat) : Bool :=
  lattice.packing = .triangular && cell.z % 2 = 1

/-- The point that a repetition selects. -/
def point (lattice : Lattice) (iteration : Nat) : Triple Float :=
  let cell := lattice.cell iteration
  { x := if lattice.shiftsRow cell then lattice.corner cell .x + 0.5 * lattice.spacing .x
         else lattice.corner cell .x
    y := if lattice.shiftsLayer cell then lattice.corner cell .y + 0.5 * lattice.spacing .y
         else lattice.corner cell .y
    z := lattice.corner cell .z }

/-- One component of the point that a repetition selects. -/
def coordinate (lattice : Lattice) (axis : Axis) (iteration : Nat) : Float :=
  (lattice.point iteration).get axis

end Lattice

/-- One axis of a lattice, as a placeholder is bound to it. -/
structure LatticeAxis where
  lattice : Lattice
  axis : Axis
  deriving Repr, DecidableEq

namespace LatticeAxis

/-- The component that a repetition selects. -/
def value (coordinate : LatticeAxis) (iteration : Nat) : Float :=
  coordinate.lattice.coordinate coordinate.axis iteration

/-- The shown form of a lattice axis. -/
def shown (coordinate : LatticeAxis) : String :=
  s!"{coordinate.lattice.packing.name} lattice {coordinate.lattice.rank.axes}D axis {coordinate.axis.name}"

end LatticeAxis

end TimedCommands
