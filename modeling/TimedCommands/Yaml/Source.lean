/-!
# Document sources

The character classes of a document and the places in it. Before anything is read, a
source is checked for characters that no document may hold, and its line breaks are
brought to one form: a carriage return, alone or before a line feed, and a next-line
character count as a line feed. The two Unicode separators remain breaks of their own.

Places matter to the block structure: indentation is a column, and a key must be
short and must end on the line on which it began.
-/

namespace TimedCommands.Yaml

/-- The ranges of characters that a document may hold. -/
def permittedRanges : List (Nat × Nat) :=
  [(0x9, 0xA), (0xD, 0xD), (0x20, 0x7E), (0x85, 0x85), (0xA0, 0xD7FF), (0xE000, 0xFFFD),
   (0x10000, 0x10FFFF)]

/-- Whether a document may hold a character. -/
def isPermitted (char : Char) : Bool :=
  permittedRanges.any fun (first, last) => first ≤ char.toNat && char.toNat ≤ last

/-- Writes every ordinary line break as a line feed. -/
def normalizeBreaks : List Char → List Char
  | [] => []
  | '\r' :: '\n' :: rest => '\n' :: normalizeBreaks rest
  | char :: rest =>
    (if char = '\r' ∨ char = '\x85' then '\n' else char) :: normalizeBreaks rest

/-- A space or a tab. -/
def isBlank (char : Char) : Bool := char = ' ' || char = '\t'

/-- A line break, once breaks are normalized. -/
def isBreak (char : Char) : Bool := char = '\n' || char = '\u2028' || char = '\u2029'

/-- Whether a blank, a break or the end comes next. -/
def blankNext : List Char → Bool
  | [] => true
  | char :: _ => isBlank char || isBreak char

/-- A place in a document, all parts counted from zero. -/
structure Mark where
  index : Nat
  line : Nat
  column : Nat
  deriving Repr, DecidableEq

namespace Mark

/-- The place before the first character. -/
def origin : Mark := ⟨0, 0, 0⟩

/-- The place behind a number of characters of the same line. -/
def skip (mark : Mark) (count : Nat) : Mark := ⟨mark.index + count, mark.line, mark.column + count⟩

/-- The place behind a line break. -/
def newLine (mark : Mark) : Mark := ⟨mark.index + 1, mark.line + 1, 0⟩

/-- The place behind one character. -/
def after (mark : Mark) (char : Char) : Mark := if isBreak char then mark.newLine else mark.skip 1

end Mark

/-- Whether a line begins here with three of the given character and a blank behind them. -/
def isDocumentMark (char : Char) (mark : Mark) (chars : List Char) : Bool :=
  mark.column = 0 && chars.take 3 = [char, char, char] && blankNext (chars.drop 3)

/-- Whether a document starts or ends here. -/
def atDocumentMark (mark : Mark) (chars : List Char) : Bool :=
  isDocumentMark '-' mark chars || isDocumentMark '.' mark chars

end TimedCommands.Yaml
