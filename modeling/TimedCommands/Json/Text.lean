import TimedCommands.Text.Hexadecimal

/-!
# Text literals

A text is written between double quotes. The quote, the backslash and the control
characters below the space are escaped, and every other character stands for itself.

What is read is kept as written, as characters and as the UTF-16 units that escapes
give by number. Units mean characters only once they are decoded: a surrogate counts
only as half of a pair.
-/

namespace TimedCommands.Json

/-- The two lower-case hexadecimal digits of a number below 256. -/
def hexPair (number : Nat) : List Char := Nat.toDigits 16 (number / 16) ++ Nat.toDigits 16 (number % 16)

/-- The written form of one character inside quotes. -/
def escape (char : Char) : List Char :=
  if char = '"' ∨ char = '\\' then ['\\', char]
  else if char = '\x08' then ['\\', 'b']
  else if char = '\x0c' then ['\\', 'f']
  else if char = '\n' then ['\\', 'n']
  else if char = '\r' then ['\\', 'r']
  else if char = '\t' then ['\\', 't']
  else if char < ' ' then ['\\', 'u', '0', '0'] ++ hexPair char.toNat
  else [char]

/-- A text between quotes. -/
def quote (text : String) : List Char := '"' :: text.toList.flatMap escape ++ ['"']

/-- A part of a text as it is written. -/
inductive Piece where
  | char (value : Char)
  /-- A UTF-16 unit given by its number. -/
  | unit (code : Nat)
  deriving Repr, DecidableEq

/-- The character that a letter behind a backslash stands for. -/
def unescape? : Char → Option Char
  | '"' => some '"'
  | '\\' => some '\\'
  | '/' => some '/'
  | 'b' => some '\x08'
  | 'f' => some '\x0c'
  | 'n' => some '\n'
  | 'r' => some '\r'
  | 't' => some '\t'
  | _ => none

/-- Reads a text behind its opening quote up to the closing one, and what follows it. -/
def readPieces? : List Char → Option (List Piece × List Char)
  | [] => none
  | '\\' :: 'u' :: first :: second :: third :: fourth :: rest => do
    let code ← Text.hexNumber? [first, second, third, fourth]
    let (pieces, after) ← readPieces? rest
    return (.unit code :: pieces, after)
  | '\\' :: letter :: rest => do
    let char ← unescape? letter
    let (pieces, after) ← readPieces? rest
    return (.char char :: pieces, after)
  | char :: rest =>
    if char = '"' then some ([], rest)
    else if char = '\\' ∨ char < ' ' then none
    else do
      let (pieces, after) ← readPieces? rest
      return (.char char :: pieces, after)

/-- Whether a unit is the first half of a pair. -/
def isHighSurrogate (code : Nat) : Bool := 0xD800 ≤ code && code < 0xDC00

/-- Whether a unit is the second half of a pair. -/
def isLowSurrogate (code : Nat) : Bool := 0xDC00 ≤ code && code < 0xE000

/-- The character that a pair of surrogates stands for. -/
def pairedChar (high low : Nat) : Char :=
  Char.ofNat (0x10000 + (high - 0xD800) * 0x400 + (low - 0xDC00))

/-- The characters of a text, if every surrogate in it is half of a pair. -/
def decodePieces? : List Piece → Option (List Char)
  | [] => some []
  | .char char :: rest => (decodePieces? rest).map (char :: ·)
  | .unit high :: .unit low :: rest =>
    if isHighSurrogate high then
      if isLowSurrogate low then (decodePieces? rest).map (pairedChar high low :: ·) else none
    else if isLowSurrogate high then none
    else (decodePieces? (.unit low :: rest)).map (Char.ofNat high :: ·)
  | .unit code :: rest =>
    if isHighSurrogate code || isLowSurrogate code then none
    else (decodePieces? rest).map (Char.ofNat code :: ·)

/-- The text that pieces stand for. -/
def textOf? (pieces : List Piece) : Option String := (decodePieces? pieces).map String.ofList

end TimedCommands.Json
