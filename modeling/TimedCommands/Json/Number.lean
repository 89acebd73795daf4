import TimedCommands.Number.Decimal

/-!
# Number literals

A number is kept as it is written until its value is asked for. Without fraction and
exponent a number that fits 64 bits is an integer; every other one is a real, and so
is a zero with a minus sign.

A real is not the nearest one to its literal. Its digits are taken into a significand
as long as that fits 64 bits, the significand is brought to the nearest real, and that
real is multiplied or divided by a power of ten, rounding once more. A real may
therefore differ in its last digits from the decimal that was written, and one that
becomes infinite has no value.
-/

namespace TimedCommands.Json

/-- The exponent of a literal. -/
structure Exponent where
  negative : Bool
  digits : List Char
  deriving Repr, DecidableEq

/-- A number as it is written. The fraction has no digits if there is no point. -/
structure Literal where
  negative : Bool
  whole : List Char
  fraction : List Char
  exponent : Option Exponent
  deriving Repr, DecidableEq

/-- The value of a number. An integer lies in the signed or unsigned 64-bit range. -/
inductive Number where
  | integer (number : Int)
  | real (number : Float)
  deriving Repr

/-- The digits of a whole part, which begin with zero only if there are no others. -/
def readWhole? : List Char → Option (List Char × List Char)
  | '0' :: rest => some (['0'], rest)
  | chars =>
    let (digits, rest) := Decimal.spanDigits chars
    if digits = [] then none else some (digits, rest)

/-- The digits of a fraction. There is at least one after a point. -/
def readFraction? : List Char → Option (List Char × List Char)
  | '.' :: chars =>
    let (digits, rest) := Decimal.spanDigits chars
    if digits = [] then none else some (digits, rest)
  | chars => some ([], chars)

/-- The exponent. There is at least one digit after its letter and sign. -/
def readExponent? : List Char → Option (Option Exponent × List Char)
  | letter :: chars =>
    if letter = 'e' ∨ letter = 'E' then
      let (negative, unsigned) := Decimal.splitSign chars
      let (digits, rest) := Decimal.spanDigits unsigned
      if digits = [] then none else some (some ⟨negative, digits⟩, rest)
    else some (none, letter :: chars)
  | [] => some (none, [])

/-- The number without its sign, and what follows it. -/
def readUnsigned? (negative : Bool) (chars : List Char) : Option (Literal × List Char) := do
  let (whole, afterWhole) ← readWhole? chars
  let (fraction, afterFraction) ← readFraction? afterWhole
  let (exponent, rest) ← readExponent? afterFraction
  return (⟨negative, whole, fraction, exponent⟩, rest)

/-- The number at the front of a text, and what follows it. -/
def readLiteral? : List Char → Option (Literal × List Char)
  | '-' :: chars => readUnsigned? true chars
  | chars => readUnsigned? false chars

/-- Takes digits into a significand as long as it fits 64 bits, and answers with the digits
that were not taken. -/
def takeDigits (significand : Nat) : List Char → Nat × List Char
  | [] => (significand, [])
  | digit :: rest =>
    let next := significand * 10 + (digit.toNat - '0'.toNat)
    if next < UInt64.size then takeDigits next rest else (significand, digit :: rest)

/-- The largest power of ten that a real is multiplied or divided by at once. -/
def largestPower : Nat := 308

/-- The real nearest to a power of ten. -/
def powerOfTen (power : Nat) : Float :=
  Decimal.toFloat { negative := false, coefficient := 1, exponent := power }

/-- Divides a real by a power of ten, by the largest power at a time. -/
def divideByPower (real : Float) (power : Nat) : Float :=
  if power ≤ largestPower then real / powerOfTen power
  else if real == 0.0 then real
  else divideByPower (real / powerOfTen largestPower) (power - largestPower)
termination_by power
decreasing_by simp only [largestPower] at *; omega

/-- Scales a significand by a power of ten, if the result is finite. -/
def scale? (significand : Nat) : Int → Option Float
  | .ofNat power =>
    if significand = 0 then some 0.0
    else if largestPower < power then none
    else
      let scaled := Decimal.nearestReal significand * powerOfTen power
      if scaled.isFinite then some scaled else none
  | .negSucc power => some (divideByPower (Decimal.nearestReal significand) (power + 1))

namespace Literal

/-- The exponent of ten that is written. -/
def power (literal : Literal) : Int :=
  match literal.exponent with
  | none => 0
  | some ⟨true, digits⟩ => -Int.ofNat (Nat.ofDigitChars 10 digits 0)
  | some ⟨false, digits⟩ => Int.ofNat (Nat.ofDigitChars 10 digits 0)

/-- The literal as a real. Whole digits that were not taken still count as places. -/
def real? (literal : Literal) : Option Float := do
  let (whole, skipped) := takeDigits 0 literal.whole
  let (significand, ignored) := takeDigits whole literal.fraction
  let places := literal.fraction.length - ignored.length
  let magnitude ← scale? significand (skipped.length - places + literal.power)
  return if literal.negative then -magnitude else magnitude

/-- Whether the literal has neither fraction nor exponent. -/
def isWhole (literal : Literal) : Bool := literal.fraction.isEmpty && literal.exponent.isNone

/-- The value of the literal. -/
def number? (literal : Literal) : Option Number :=
  let magnitude := Nat.ofDigitChars 10 literal.whole 0
  if !literal.isWhole then literal.real?.map Number.real
  else if literal.negative then
    if 0 < magnitude ∧ Int64.minValue.toInt ≤ -Int.ofNat magnitude then
      some (.integer (-Int.ofNat magnitude))
    else literal.real?.map Number.real
  else if magnitude < UInt64.size then some (.integer magnitude)
  else literal.real?.map Number.real

end Literal

end TimedCommands.Json
