import TimedCommands.Number.Shortest

/-!
# Real numbers as text

Every written form of a real shows its shortest decimal digits. The forms differ
only in where positional notation ends, in the spelling of the exponent and of the
values that are no numbers, and in how a tie between two shortest decimals is
broken, so each form is one `RealFormat`. A finite real always shows a point or an
exponent: an integral real is never mistaken for an integer.
-/

namespace TimedCommands

/-- The decisions that distinguish one written form of reals from another. -/
structure RealFormat where
  tie : TieRule
  /-- The least exponent of ten, in scientific notation, that is still written positionally. -/
  leastPositional : Int
  /-- The least exponent of ten above the positional range. -/
  firstScientific : Int
  /-- Whether a nonnegative exponent carries a plus sign. -/
  plusSign : Bool
  infinity : String
  negativeInfinity : String
  notANumber : String

namespace RealFormat

/-- Places a point among decimal digits so that the number is `digits * 10 ^ exponent`. -/
def positional (digits : List Char) (exponent : Int) : List Char :=
  match exponent with
  | .ofNat zeros => digits ++ List.replicate zeros '0' ++ ['.', '0']
  | .negSucc places =>
    let fractionLength := places + 1
    if fractionLength < digits.length then
      let whole := digits.length - fractionLength
      digits.take whole ++ '.' :: digits.drop whole
    else '0' :: '.' :: List.replicate (fractionLength - digits.length) '0' ++ digits

/-- One digit before the point, the rest after it, and the exponent of ten. -/
def scientific (plusSign : Bool) (digits : List Char) (power : Int) : List Char :=
  let mantissa := match digits with
    | first :: second :: rest => first :: '.' :: second :: rest
    | short => short
  let sign := if power < 0 then ['-'] else if plusSign then ['+'] else []
  mantissa ++ 'e' :: sign ++ Nat.toDigits 10 power.natAbs

/-- The text of a finite magnitude word. -/
def magnitude (format : RealFormat) (word : Nat) : List Char :=
  if word = 0 then ['0', '.', '0']
  else
    let shortest := Magnitude.shortest format.tie word
    let digits := Nat.toDigits 10 shortest.coefficient
    let power := (digits.length : Int) - 1 + shortest.exponent
    if format.leastPositional ≤ power ∧ power < format.firstScientific then
      positional digits shortest.exponent
    else scientific format.plusSign digits power

/-- The text of a real in a given format. -/
def write (format : RealFormat) (real : Float) : String :=
  let word := Binary64.magnitudeWord real
  if Binary64.infinityWord < word then format.notANumber
  else if word = Binary64.infinityWord then
    if Binary64.isNegative real then format.negativeInfinity else format.infinity
  else if Binary64.isNegative real then String.ofList ('-' :: format.magnitude word)
  else String.ofList (format.magnitude word)

/-- Reals in directive lines, reasons and bindings: positional from `0.0001` up to, but
without, `1e16`. -/
def plain : RealFormat where
  tie := .larger
  leastPositional := -4
  firstScientific := 16
  plusSign := false
  infinity := "inf"
  negativeInfinity := "-inf"
  notANumber := "NaN"

/-- Reals in complaints about structured entries are never written with an exponent. -/
def unscaled : RealFormat where
  tie := .larger
  leastPositional := -400
  firstScientific := 400
  plusSign := false
  infinity := "inf"
  negativeInfinity := "-inf"
  notANumber := "NaN"

end RealFormat

end TimedCommands
