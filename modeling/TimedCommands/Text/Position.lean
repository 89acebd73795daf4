/-!
# Positions in a text

Places in a source are byte offsets of its UTF-8 form. For a reader they are shown
as a line and a column, both counted from one, the column in characters.
-/

namespace TimedCommands

/-- A range of bytes of a source, the stop not included. -/
structure Span where
  start : Nat
  stop : Nat
  deriving Repr, DecidableEq

/-- The shown form of a span. -/
def Span.text (span : Span) : String := s!"{span.start}..{span.stop}"

namespace Text

/-- The number of bytes of a character list in UTF-8. -/
def byteLength (chars : List Char) : Nat := chars.foldr (fun char bytes => char.utf8Size + bytes) 0

/-- A line and a column, both counted from one. -/
structure Position where
  line : Nat
  column : Nat
  deriving Repr, DecidableEq

namespace Position

/-- The position after one more character. -/
def after (position : Position) (char : Char) : Position :=
  if char = '\n' then ⟨position.line + 1, 1⟩ else ⟨position.line, position.column + 1⟩

/-- Moves over characters until `bytes` bytes are behind. -/
def advance : (chars : List Char) → (bytes : Nat) → Position → Position
  | [], _, position => position
  | char :: rest, bytes, position =>
    if bytes = 0 then position else advance rest (bytes - char.utf8Size) (position.after char)

/-- The position of a byte offset of a source. -/
def ofOffset (source : String) (offset : Nat) : Position := advance source.toList offset ⟨1, 1⟩

end Position

end Text

end TimedCommands
