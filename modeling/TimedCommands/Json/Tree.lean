import TimedCommands.Json.Number
import TimedCommands.Json.Text

/-!
# Trees

The structure of a text, with its numbers and texts still as they are written. A tree
exists for every well-formed text; whether a number has a value, and a text characters,
is asked only where they are needed.
-/

namespace TimedCommands.Json

/-- A well-formed text. -/
inductive Tree where
  | null
  | boolean (flag : Bool)
  | number (literal : Literal)
  | text (pieces : List Piece)
  | array (items : List Tree)
  | object (members : List (List Piece × Tree))
  deriving Repr

/-- Removes blanks from the front. -/
def skipBlanks (chars : List Char) : List Char :=
  chars.dropWhile fun char => char = ' ' || char = '\t' || char = '\n' || char = '\r'

mutual

/-- Reads the tree at the front of a text, and what follows it. Nested calls are paid for
by the brackets and separators between them, so as many steps as there are characters
suffice. -/
def readTree? : (steps : Nat) → List Char → Option (Tree × List Char)
  | 0, _ => none
  | steps + 1, chars =>
    match skipBlanks chars with
    | 'n' :: 'u' :: 'l' :: 'l' :: rest => some (.null, rest)
    | 't' :: 'r' :: 'u' :: 'e' :: rest => some (.boolean true, rest)
    | 'f' :: 'a' :: 'l' :: 's' :: 'e' :: rest => some (.boolean false, rest)
    | '"' :: rest => do
      let (pieces, after) ← readPieces? rest
      return (.text pieces, after)
    | '[' :: rest =>
      match skipBlanks rest with
      | ']' :: after => some (.array [], after)
      | inside => do
        let (items, after) ← readItems? steps inside
        return (.array items, after)
    | '\x7b' :: rest =>
      match skipBlanks rest with
      | '\x7d' :: after => some (.object [], after)
      | inside => do
        let (members, after) ← readMembers? steps inside
        return (.object members, after)
    | other => do
      let (literal, after) ← readLiteral? other
      return (.number literal, after)

/-- Reads the items of an array up to its bracket. -/
def readItems? : (steps : Nat) → List Char → Option (List Tree × List Char)
  | 0, _ => none
  | steps + 1, chars => do
    let (item, rest) ← readTree? steps chars
    match skipBlanks rest with
    | ',' :: more =>
      let (items, after) ← readItems? steps more
      return (item :: items, after)
    | ']' :: after => return ([item], after)
    | _ => none

/-- Reads the members of an object up to its brace. -/
def readMembers? : (steps : Nat) → List Char → Option (List (List Piece × Tree) × List Char)
  | 0, _ => none
  | steps + 1, chars =>
    match skipBlanks chars with
    | '"' :: inside => do
      let (name, afterName) ← readPieces? inside
      match skipBlanks afterName with
      | ':' :: rest =>
        let (value, afterValue) ← readTree? steps rest
        match skipBlanks afterValue with
        | ',' :: more =>
          let (members, after) ← readMembers? steps more
          return ((name, value) :: members, after)
        | '\x7d' :: after => return ([(name, value)], after)
        | _ => none
      | _ => none
    | _ => none

end

/-- Reads a text that holds one tree. -/
def Tree.ofChars? (chars : List Char) : Option Tree := do
  let (tree, rest) ← readTree? (chars.length + 1) chars
  if skipBlanks rest = [] then return tree else none

end TimedCommands.Json
