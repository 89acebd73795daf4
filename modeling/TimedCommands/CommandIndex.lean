/-!
# Command indices

Commands of a group are counted from one. Control input carries raw integers, which
may be anything; a `CommandIndex` is one that passed the range check, and it holds
the position in the group's list so that look-up needs no subtraction.
-/

namespace TimedCommands

/-- The greatest 32-bit unsigned number, the bound of indices, counts and dimensions. -/
def maxCount : Int := 4294967295

/-- The one-based index of a command, held as its position in the command list. -/
structure CommandIndex where
  position : Nat
  deriving Repr, DecidableEq

namespace CommandIndex

/-- The index as it is written: positions count from zero, indices from one. -/
def number (index : CommandIndex) : Nat := index.position + 1

/-- The written index in decimal. -/
def text (index : CommandIndex) : String := toString index.number

/-- The index a raw integer denotes, if it is at least one and fits 32 bits. -/
def ofRaw? (raw : Int64) : Option CommandIndex :=
  if 1 ≤ raw.toInt ∧ raw.toInt ≤ maxCount then some ⟨raw.toInt.toNat - 1⟩ else none

/-- The index as a raw integer. -/
def toRaw (index : CommandIndex) : Int64 := Int64.ofInt index.number

/-- The complaint about a raw integer that is no index. -/
def rangeMessage (raw : Int64) : String := s!"command index must be >= 1, got {raw.toInt}"

end CommandIndex

end TimedCommands
