import TimedCommands.Number.Binary64

/-!
# Decimal literals

A decimal is a sign, a natural coefficient and a power of ten. Reading splits a
literal into those parts without loss; only `Decimal.toFloat` rounds, once, from
the exact rational value. Exponents far outside the grid are answered without
building the power, since the result is known to be zero or infinite.
-/

namespace TimedCommands

/-- An exact decimal number `± coefficient * 10 ^ exponent`. -/
structure Decimal where
  negative : Bool
  coefficient : Nat
  exponent : Int
  deriving Repr, DecidableEq

namespace Decimal

/-- The number of decimal digits of a natural number; zero has none. The estimate from
the binary length is at most two short. -/
def digitCount (number : Nat) : Nat :=
  let estimate := number.log2 * 30102 / 100000
  if number < Nat.pow 10 estimate then estimate
  else if number < Nat.pow 10 (estimate + 1) then estimate + 1
  else estimate + 2

/-- A power of ten that every positive number reaches, from its binary length. -/
def reachedPower (number : Nat) : Nat := number.log2 * 30102 / 100000

/-- A power of ten that every number stays below, from its binary length. -/
def unreachedPower (number : Nat) : Nat := (number.log2 + 1) * 30103 / 100000 + 1

/-- Above this power of ten every number rounds to infinity. -/
def largestPower : Int := 310

/-- Below this power of ten every number rounds to zero. -/
def smallestPower : Int := -330

/-- The magnitude word nearest to the decimal. -/
def word (decimal : Decimal) : Nat :=
  if decimal.coefficient = 0
      || unreachedPower decimal.coefficient + decimal.exponent < smallestPower then 0
  else if largestPower < reachedPower decimal.coefficient + decimal.exponent then
    Binary64.infinityWord
  else match decimal.exponent with
    | .ofNat power => Binary64.nearestWord (decimal.coefficient * Nat.pow 10 power) 1
    | .negSucc power => Binary64.nearestWord decimal.coefficient (Nat.pow 10 (power + 1))

/-- The real nearest to the decimal, ties going to the even word. -/
def toFloat (decimal : Decimal) : Float :=
  Binary64.ofMagnitude decimal.negative decimal.word

/-- The real nearest to an integer, ties going to the even word. -/
def nearestReal (number : Int) : Float :=
  toFloat { negative := number < 0, coefficient := number.natAbs, exponent := 0 }

/-- The leading decimal digits of a text and what follows them. -/
def spanDigits (text : List Char) : List Char × List Char :=
  (text.takeWhile Char.isDigit, text.dropWhile Char.isDigit)

/-- An optional sign, `true` when it is a minus, and what follows it. -/
def splitSign : List Char → Bool × List Char
  | '-' :: rest => (true, rest)
  | '+' :: rest => (false, rest)
  | text => (false, text)

/-- The digits after a point, if one comes next, and what follows them. -/
def splitFraction : List Char → List Char × List Char
  | '.' :: rest => spanDigits rest
  | text => ([], text)

/-- The exponent part that must fill the rest of a literal: nothing, or a letter,
an optional sign and at least one digit. -/
def exponentPart? : List Char → Option Int
  | [] => some 0
  | letter :: rest =>
    if letter = 'e' ∨ letter = 'E' then
      let (negative, digits) := splitSign rest
      if digits ≠ [] ∧ digits.all Char.isDigit then
        let power := Nat.ofDigitChars 10 digits 0
        some (if negative then -Int.ofNat power else Int.ofNat power)
      else none
    else none

/-- Reads a whole decimal literal: an optional sign, digits with an optional point among
or around them, and an optional exponent. At least one digit must stand before the exponent. -/
def ofChars? (text : List Char) : Option Decimal :=
  let (negative, unsigned) := splitSign text
  let (whole, afterWhole) := spanDigits unsigned
  let (fraction, rest) := splitFraction afterWhole
  if whole = [] ∧ fraction = [] then none
  else do
    let power ← exponentPart? rest
    return {
      negative
      coefficient := Nat.ofDigitChars 10 (whole ++ fraction) 0
      exponent := power - fraction.length }

end Decimal

end TimedCommands
