import TimedCommands.Number.RealText
import TimedCommands.Yaml.Tree

/-!
# Writing documents

Trees are written in block form, two columns to a level; a sequence below a mapping's
key keeps the key's column, and only empty collections have brackets. A text is
written plain if it reads back as the same text, between single quotes if it would
read as something else or holds an indicator, as a literal scalar if it holds a line
feed, and between double quotes if it holds a character that the other forms cannot
show. Lines are never folded.

A key that holds a break or is longer than 128 bytes is written behind a question
mark, since a reader looks for the end of other keys on the same line only.
-/

namespace TimedCommands.Yaml

/-- Reals in a document: positional from `0.00001` up to, but without, `1e16`. -/
def realFormat : RealFormat where
  tie := .even
  leastPositional := -5
  firstScientific := 16
  plusSign := false
  infinity := ".inf"
  negativeInfinity := "-.inf"
  notANumber := ".nan"

/-- The ranges of characters that need no escape in a document. -/
def printableRanges : List (Nat × Nat) :=
  [(0xA, 0xA), (0x20, 0x7E), (0xA0, 0xD7FF), (0xE000, 0xFEFE), (0xFF00, 0xFFFD),
   (0x10000, 0x10FFFF)]

/-- Whether a character needs no escape in a document. -/
def isPrintable (char : Char) : Bool :=
  printableRanges.any fun (first, last) => first ≤ char.toNat && char.toNat ≤ last

/-- Whether two neighbouring characters satisfy a condition. -/
def hasPair (condition : Char → Char → Bool) : List Char → Bool
  | first :: second :: rest => condition first second || hasPair condition (second :: rest)
  | _ => false

/-- The first characters that would not read as part of a plain scalar. -/
def leadingIndicators : List Char :=
  ['#', ',', '[', ']', '\x7b', '\x7d', '&', '*', '!', '|', '>', '\'', '"', '%', '@', '\x60']

/-- Whether the beginning of a text would not read as a plain scalar. -/
def startsAmbiguously (chars : List Char) : Bool :=
  match chars with
  | [] => false
  | first :: rest =>
    chars.take 3 = ['-', '-', '-'] || chars.take 3 = ['.', '.', '.']
      || first ∈ leadingIndicators
      || ((first = '?' || first = ':' || first = '-') && blankNext rest)

/-- Whether a colon or number sign inside a text would end a plain scalar. -/
def holdsIndicator (chars : List Char) : Bool :=
  hasPair (fun first second => first = ':' && blankNext [second]) chars
    || chars.getLast? = some ':'
    || hasPair (fun first second => blankNext [first] && second = '#') chars

/-- Whether a space or break stands at either end of a text. -/
def hasOuterSpace (chars : List Char) : Bool :=
  let outer (char : Option Char) : Bool := match char with
    | some char => char = ' ' || isBreak char
    | none => false
  outer chars.head? || outer chars.getLast?

/-- Whether some character of a text needs an escape. -/
def needsEscape (chars : List Char) : Bool := chars.any fun char => !isPrintable char

/-- Whether a break stands directly behind a space. -/
def hasSpaceBeforeBreak (chars : List Char) : Bool :=
  hasPair (fun first second => first = ' ' && isBreak second) chars

/-- Whether a text can stand plain in block form. -/
def fitsPlain (chars : List Char) : Bool :=
  !startsAmbiguously chars && !holdsIndicator chars && !hasOuterSpace chars
    && !needsEscape chars && !chars.any isBreak

/-- Whether a text can stand between single quotes. -/
def fitsSingleQuotes (chars : List Char) : Bool :=
  !needsEscape chars && !hasSpaceBeforeBreak chars
    && !hasPair (fun first second => isBreak first && second = ' ') chars

/-- Whether a text can be a literal scalar. -/
def fitsLiteral (chars : List Char) : Bool :=
  !needsEscape chars && !hasSpaceBeforeBreak chars && chars.getLast? ≠ some ' '

/-- Whether a plain text would be read as something other than a text. Digits behind a
leading zero are read as a text but quoted all the same. -/
def readsAsOther (content : String) : Bool :=
  let chars := content.toList
  hasLeadingZeroAfterSign chars ||
    match Tree.ofPlain? content with
    | some (.text _) => false
    | _ => true
where
  /-- Whether a number, its sign removed, has digits behind a leading zero. -/
  hasLeadingZeroAfterSign (chars : List Char) : Bool :=
    Tree.hasLeadingZero (if Tree.startsWithSign chars then chars.drop 1 else chars)

/-- The written forms of a text. -/
inductive ScalarStyle where
  | plain
  | singleQuoted
  | doubleQuoted
  | literal
  deriving Repr, DecidableEq

/-- The form in which a text is written. -/
def styleOf (content : String) : ScalarStyle :=
  let chars := content.toList
  if '\n' ∈ chars then if fitsLiteral chars then .literal else .doubleQuoted
  else if !readsAsOther content && fitsPlain chars then .plain
  else if fitsSingleQuotes chars then .singleQuoted
  else .doubleQuoted

/-- What has been written, in reverse. -/
structure Output where
  reversed : List Char

namespace Output

/-- Nothing has been written. -/
def empty : Output := ⟨[]⟩

/-- Appends characters. -/
def put (output : Output) (chars : List Char) : Output := ⟨chars.reverse ++ output.reversed⟩

/-- Appends a text. -/
def putText (output : Output) (text : String) : Output := output.put text.toList

/-- Appends spaces. -/
def indent (output : Output) (columns : Nat) : Output := output.put (List.replicate columns ' ')

/-- Ends the current line, unless it is empty. -/
def endLine (output : Output) : Output :=
  match output.reversed with
  | [] => output
  | last :: _ => if isBreak last then output else output.put ['\n']

/-- Begins a line at a column. -/
def startLine (output : Output) (column : Nat) : Output := output.endLine.indent column

/-- Appends a space, if one is wanted. -/
def space (output : Output) (wanted : Bool) : Output := if wanted then output.put [' '] else output

/-- Everything that was written. -/
def text (output : Output) : String := String.ofList output.reversed.reverse

end Output

/-- The hexadecimal digits of a number in upper case, filled with zeros. -/
def hexDigits (width number : Nat) : List Char :=
  let digits := (Nat.toDigits 16 number).map Char.toUpper
  List.replicate (width - digits.length) '0' ++ digits

/-- An escape by code point. -/
def codeEscape (code : Nat) : List Char :=
  if code ≤ 0xFF then 'x' :: hexDigits 2 code
  else if code ≤ 0xFFFF then 'u' :: hexDigits 4 code
  else 'U' :: hexDigits 8 code

/-- The written form of a character between double quotes. -/
def escapeChar (char : Char) : List Char :=
  if isPrintable char && !isBreak char && char ≠ '"' && char ≠ '\\' then [char]
  else
    let named := ['0', 'a', 'b', 't', 'n', 'v', 'f', 'r', 'e', '"', '\\', 'N', '_', 'L', 'P']
    match named.find? fun name => shortEscape? name = some char with
    | some name => ['\\', name]
    | none => '\\' :: codeEscape char.toNat

/-- Indents every character that follows a break. -/
def indentLines (column : Nat) : (afterBreak : Bool) → List Char → List Char
  | _, [] => []
  | afterBreak, char :: rest =>
    if isBreak char then char :: indentLines column true rest
    else (if afterBreak then List.replicate column ' ' else []) ++ char :: indentLines column false rest

/-- Doubles single quotes. -/
def doubleQuotes (chars : List Char) : List Char :=
  chars.flatMap fun char => if char = '\'' then ['\'', '\''] else [char]

/-- The indicators of a literal scalar: its indentation if it begins with a space or break,
and how its end is to be read. -/
def literalHeader (chars : List Char) : List Char :=
  let hint := match chars with
    | first :: _ => if first = ' ' || isBreak first then ['2'] else []
    | [] => []
  let ending := match chars.reverse with
    | last :: before =>
      if !isBreak last then ['-']
      else match before with
        | [] => ['+']
        | previous :: _ => if isBreak previous then ['+'] else []
    | [] => ['-']
  '|' :: hint ++ ending

/-- Writes a text whose further lines stand at a column. -/
def Output.putScalarText (output : Output) (column : Nat) (content : String) : Output :=
  let chars := content.toList
  match styleOf content with
  | .plain => output.put chars
  | .singleQuoted =>
    let body := indentLines column false (doubleQuotes chars)
    let closing := match chars.getLast? with
      | some last => if isBreak last then List.replicate column ' ' else []
      | none => []
    output.put ('\'' :: body ++ closing ++ ['\''])
  | .doubleQuoted => output.put ('"' :: chars.flatMap escapeChar ++ ['"'])
  | .literal => output.put (literalHeader chars ++ '\n' :: indentLines column true chars)

/-- Whether a key must be written behind a question mark. -/
def isLongKey : Tree → Bool
  | .text content => content.utf8ByteSize > 128 || content.toList.any isBreak
  | .sequence items => !items.isEmpty
  | .mapping entries => !entries.isEmpty
  | _ => false

mutual

/-- Writes a tree behind the key, dash or beginning of line that it belongs to; `column`
is the indentation of what surrounds it, and `separated` says that a space comes first. -/
def Output.putTree (output : Output) (column : Nat) (separated : Bool) (afterKey : Bool) :
    Tree → Output
  | .null => (output.space separated).putText "null"
  | .boolean flag => (output.space separated).putText (if flag then "true" else "false")
  | .integer number => (output.space separated).putText (toString number)
  | .real number => (output.space separated).putText (realFormat.write number)
  | .text content => (output.space separated).putScalarText (column + 2) content
  | .sequence [] => (output.space separated).putText "[]"
  | .mapping [] => (output.space separated).putText "\x7b\x7d"
  | .sequence (first :: rest) =>
    if afterKey then output.putItems column true (first :: rest)
    else (output.space separated).putItems (if separated then column + 2 else column) false (first :: rest)
  | .mapping (first :: rest) =>
    if afterKey then output.putEntries (column + 2) true (first :: rest)
    else (output.space separated).putEntries (if separated then column + 2 else column) false (first :: rest)
  | .tagged tag content =>
    (((output.space separated).put ['!']).putText tag).putTree column true true content

/-- Writes the items of a sequence whose dashes stand at a column. -/
def Output.putItems (output : Output) (column : Nat) (newLine : Bool) : List Tree → Output
  | [] => output
  | item :: rest =>
    let started := if newLine then output.startLine column else output
    ((started.put ['-']).putTree column true false item).putItems column true rest

/-- Writes the entries of a mapping whose keys stand at a column. -/
def Output.putEntries (output : Output) (column : Nat) (newLine : Bool) :
    List (Tree × Tree) → Output
  | [] => output
  | (key, value) :: rest =>
    let started := if newLine then output.startLine column else output
    let keyed :=
      if isLongKey key then
        (((started.put ['?']).putTree column true false key).startLine column).put [':']
      else (started.putTree column false false key).put [':']
    (keyed.putTree column true (!isLongKey key) value).putEntries column true rest

end

/-- Writes a document. -/
def write (tree : Tree) : String := ((Output.empty.putTree 0 false false tree).endLine).text

end TimedCommands.Yaml
