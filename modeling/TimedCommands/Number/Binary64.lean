/-!
# The binary64 grid

A finite real is held as its 64-bit word. This module relates the sign-free part
of such a word to an exact natural number: the magnitude in units of `2 ^ -1074`,
the distance between the two least magnitudes. Rounding a quotient of natural
numbers to the nearest grid point, a tie going to the even word, is one division
once the size of the grid step is known, and no intermediate result is rounded.

A word below `2 ^ 53` counts units directly. Above that the word's exponent field
says how often the step has doubled, and the two readings agree at every border,
so a carry out of the significand needs no separate case.
-/

namespace TimedCommands.Binary64

/-- The word of positive infinity; every smaller word without a sign is finite. -/
def infinityWord : Nat := 0x7FF0000000000000

/-- The bit that marks a negative word. -/
def signWord : Nat := 0x8000000000000000

/-- The number of words over which the grid step stays the same. -/
def wordsPerStep : Nat := 0x10000000000000

/-- How often the grid step has doubled at a magnitude word. -/
def doublings (word : Nat) : Nat := word / wordsPerStep - 1

/-- The significand at a magnitude word, counted in steps of its size. -/
def significand (word : Nat) : Nat := word - doublings word * wordsPerStep

/-- The exact magnitude of a finite word, in units of `2 ^ -1074`. -/
def units (word : Nat) : Nat := significand word <<< doublings word

/-- The quotient rounded to the nearest natural number, a tie going to the even one. -/
def divideToNearest (numerator denominator : Nat) : Nat :=
  let quotient := numerator / denominator
  let twiceRemainder := 2 * (numerator % denominator)
  if twiceRemainder < denominator then quotient
  else if denominator < twiceRemainder then quotient + 1
  else quotient + quotient % 2

/-- The magnitude word nearest to `numerator / denominator`. The step is the least one
whose significand fits 53 bits; magnitudes beyond the grid become infinite. -/
def nearestWord (numerator denominator : Nat) : Nat :=
  let scaled := numerator <<< 1074
  let steps := (scaled / denominator).log2 - 52
  min (steps * wordsPerStep + divideToNearest scaled (denominator <<< steps)) infinityWord

/-- The magnitude word of a real, its sign removed. -/
def magnitudeWord (real : Float) : Nat := real.toBits.toNat % signWord

/-- Whether the sign bit is set. A negative zero counts as negative. -/
def isNegative (real : Float) : Bool := signWord ≤ real.toBits.toNat

/-- The real with a given sign and magnitude word. -/
def ofMagnitude (negative : Bool) (word : Nat) : Float :=
  Float.ofBits (UInt64.ofNat (if negative then signWord + word else word))

end TimedCommands.Binary64
