import TimedCommands.Number.Decimal

/-!
# Shortest decimals

The shortest decimal of a magnitude is found on one grid after another. With `n`
digits a magnitude has two neighbours on the grid of `n`-digit decimals; the first
grid on which a neighbour reads back to the same word wins, and of two hits the
nearer. Seventeen digits always suffice, and should no grid answer, the exact
expansion does, so the result reads back by construction.

All arithmetic is on natural numbers: a magnitude of `u` units of `2 ^ -1074` is
`u * 5 ^ 1074` units of `10 ^ -1074`.
-/

namespace TimedCommands

/-- How to choose between two shortest decimals at the same distance. -/
inductive TieRule where
  | larger
  | even
  deriving Repr, DecidableEq

/-- A magnitude in decimal: `coefficient * 10 ^ exponent`. -/
structure Magnitude where
  coefficient : Nat
  exponent : Int
  deriving Repr, DecidableEq

namespace Magnitude

/-- The word a magnitude reads back to. -/
def word (magnitude : Magnitude) : Nat :=
  Decimal.word { negative := false, coefficient := magnitude.coefficient,
                 exponent := magnitude.exponent }

/-- The exact expansion of a finite word, in units of `10 ^ -1074`. -/
def exactUnits (word : Nat) : Nat := Binary64.units word * Nat.pow 5 1074

/-- The exact expansion of a finite word as a magnitude. -/
def exact (word : Nat) : Magnitude := { coefficient := exactUnits word, exponent := -1074 }

end Magnitude

/-- Whether the lower neighbour is the better one: it is nearer, or the tie rule says so. -/
def TieRule.prefersLower (tie : TieRule) (coefficient twiceOffset step : Nat) : Bool :=
  if twiceOffset = step then
    match tie with
    | .larger => false
    | .even => coefficient % 2 = 0
  else twiceOffset < step

namespace Magnitude

/-- The better of the two neighbours of `units` on the grid of multiples of `10 ^ dropped`
units, among those that read back to `word`. -/
def onGrid? (tie : TieRule) (word units dropped : Nat) : Option Magnitude :=
  let step := Nat.pow 10 dropped
  let exponent := (dropped : Int) - 1074
  let below : Magnitude := { coefficient := units / step, exponent }
  let above : Magnitude := { coefficient := units / step + 1, exponent }
  if below.word = word then
    if tie.prefersLower below.coefficient (2 * (units % step)) step then some below
    else if above.word = word then some above
    else some below
  else if above.word = word then some above
  else none

/-- Tries the grids from `digits` digits on, for at most `grids` of them. -/
def search (tie : TieRule) (word units size : Nat) : (grids digits : Nat) → Option Magnitude
  | 0, _ => none
  | grids + 1, digits =>
    (onGrid? tie word units (size - digits)).orElse fun _ => search tie word units size grids (digits + 1)

/-- Moves trailing zeros of the coefficient into the exponent, at most `limit` of them. -/
def stripZeros : (limit : Nat) → Magnitude → Magnitude
  | 0, magnitude => magnitude
  | limit + 1, magnitude =>
    if magnitude.coefficient ≠ 0 ∧ magnitude.coefficient % 10 = 0 then
      stripZeros limit
        { coefficient := magnitude.coefficient / 10, exponent := magnitude.exponent + 1 }
    else magnitude

/-- The shortest decimal that reads back to a finite, nonzero magnitude word. -/
def shortest (tie : TieRule) (word : Nat) : Magnitude :=
  let units := exactUnits word
  let found := search tie word units (Decimal.digitCount units) 17 1
  stripZeros 20 (found.getD (exact word))

end Magnitude

end TimedCommands
