import TimedCommands.Text.Hexadecimal
import TimedCommands.Yaml.Source

/-!
# Scalars

Reading the text of a scalar in its five written forms: plain, single-quoted,
double-quoted, literal and folded. The first three may run over several lines; the white
space between two parts of their text is folded: without a line break it stays as it
is, one break becomes a space, and of several breaks all but the first remain. A literal
or folded scalar is a block of lines; the breaks of a folded one are folded as well, except
beside a line that begins with a blank.

Every reader answers `none` where the text is malformed, since a document with one
such place has no meaning at all.
-/

namespace TimedCommands.Yaml

/-- White space between two parts of a scalar. Spaces count only as long as no break has
come; an escaped break leaves no trace of itself. -/
structure Fold where
  spaces : List Char
  breaks : List Char
  escaped : Bool
  deriving Repr, DecidableEq

namespace Fold

/-- No white space. -/
def empty : Fold := ⟨[], [], false⟩

/-- Whether a line has ended. -/
def endsLine (fold : Fold) : Bool := fold.escaped || fold.breaks ≠ []

/-- What white space contributes to the text when more text follows. -/
def text (fold : Fold) : List Char :=
  if fold.escaped then fold.breaks
  else match fold.breaks with
    | [] => fold.spaces
    | '\n' :: [] => [' ']
    | '\n' :: rest => rest
    | breaks => breaks

/-- Reads white space. Behind a break, a tab left of `tabLimit` is malformed. -/
def read (tabLimit : Int) (fold : Fold) (mark : Mark) :
    List Char → Option (Fold × Mark × List Char)
  | [] => some (fold, mark, [])
  | char :: rest =>
    if isBlank char then
      if !fold.endsLine then
        read tabLimit { fold with spaces := fold.spaces ++ [char] } (mark.skip 1) rest
      else if char = '\t' ∧ (mark.column : Int) < tabLimit then none
      else read tabLimit fold (mark.skip 1) rest
    else if isBreak char then
      read tabLimit { fold with spaces := [], breaks := fold.breaks ++ [char] } mark.newLine rest
    else some (fold, mark, char :: rest)

end Fold

/-- The outcome of reading a scalar: its text, whether it ended behind a line break, and
what follows. -/
structure ScalarRead where
  text : List Char
  endsLine : Bool
  mark : Mark
  rest : List Char

/-- A character that ends a plain scalar inside brackets. -/
def isFlowIndicator (char : Char) : Bool :=
  char = ',' || char = '[' || char = ']' || char = '\x7b' || char = '\x7d'

/-- Reads a part of a plain scalar, up to white space or an indicator. -/
def plainPart (inFlow : Bool) (mark : Mark) :
    List Char → Option (List Char × Mark × List Char)
  | [] => some ([], mark, [])
  | char :: rest =>
    let misplaced : Bool := match rest with
      | next :: _ => isFlowIndicator next || next = '?'
      | [] => false
    if isBlank char || isBreak char then some ([], mark, char :: rest)
    else if char = ':' ∧ inFlow ∧ misplaced then none
    else if char = ':' ∧ blankNext rest then some ([], mark, char :: rest)
    else if inFlow ∧ isFlowIndicator char then some ([], mark, char :: rest)
    else do
      let (part, mark, rest) ← plainPart inFlow (mark.skip 1) rest
      return (char :: part, mark, rest)

/-- Reads the parts of a plain scalar that is indented by at least `indent`. -/
def plainParts (inFlow : Bool) (indent : Int) :
    (fuel : Nat) → (text : List Char) → Fold → Mark → List Char → Option ScalarRead
  | 0, _, _, _, _ => none
  | fuel + 1, text, fold, mark, chars =>
    if atDocumentMark mark chars || chars.head? = some '#' then
      some ⟨text, fold.endsLine, mark, chars⟩
    else do
      let (part, mark, rest) ← plainPart inFlow mark chars
      let (text, fold) := if part = [] then (text, fold) else (text ++ fold.text ++ part, Fold.empty)
      if rest = [] ∨ !blankNext rest then some ⟨text, fold.endsLine, mark, rest⟩
      else
        let (fold, mark, rest) ← Fold.read indent Fold.empty mark rest
        if !inFlow ∧ (mark.column : Int) < indent then some ⟨text, fold.endsLine, mark, rest⟩
        else plainParts inFlow indent fuel text fold mark rest

/-- Reads a plain scalar. -/
def readPlain (inFlow : Bool) (indent : Int) (mark : Mark) (chars : List Char) :
    Option ScalarRead :=
  plainParts inFlow indent (chars.length + 1) [] Fold.empty mark chars

/-- The character that hexadecimal digits denote, if it exists. -/
def hexChar? (digits : List Char) : Option Char := do
  let code ← Text.hexNumber? digits
  if code.isValidChar then some (Char.ofNat code) else none

/-- The escapes of one character in a double-quoted scalar. -/
def shortEscape? (char : Char) : Option Char :=
  match char with
  | '0' => some '\x00'
  | 'a' => some '\x07'
  | 'b' => some '\x08'
  | 't' | '\t' => some '\t'
  | 'n' => some '\n'
  | 'v' => some '\x0b'
  | 'f' => some '\x0c'
  | 'r' => some '\r'
  | 'e' => some '\x1b'
  | ' ' => some ' '
  | '"' => some '"'
  | '/' => some '/'
  | '\\' => some '\\'
  | 'N' => some '\x85'
  | '_' => some '\xa0'
  | 'L' => some '\u2028'
  | 'P' => some '\u2029'
  | _ => none

/-- How many hexadecimal digits an escape takes. -/
def escapeDigits? (char : Char) : Option Nat :=
  match char with
  | 'x' => some 2
  | 'u' => some 4
  | 'U' => some 8
  | _ => none

/-- An escape at the front of `char :: rest`, behind its backslash: the character it
stands for and the number of characters it takes. -/
def readEscape? (char : Char) (rest : List Char) : Option (Char × Nat) :=
  match escapeDigits? char with
  | some count =>
    if rest.length < count then none
    else (hexChar? (rest.take count)).map fun meant => (meant, count)
  | none => (shortEscape? char).map fun meant => (meant, 0)

/-- How a part of a quoted scalar ended. -/
inductive PartEnd where
  | closed
  | blank
  | escapedBreak
  deriving Repr, DecidableEq

/-- Reads a part of a single-quoted scalar, up to white space or the closing quote. -/
def singlePart (mark : Mark) : List Char → Option (List Char × PartEnd × Mark × List Char)
  | [] => none
  | '\'' :: '\'' :: rest => do
    let (part, ending, mark, rest) ← singlePart (mark.skip 2) rest
    return ('\'' :: part, ending, mark, rest)
  | char :: rest =>
    if char = '\'' then some ([], .closed, mark.skip 1, rest)
    else if isBlank char || isBreak char then some ([], .blank, mark, char :: rest)
    else do
      let (part, ending, mark, rest) ← singlePart (mark.skip 1) rest
      return (char :: part, ending, mark, rest)

/-- Reads a part of a double-quoted scalar, up to white space, the closing quote or an
escaped line break. -/
def doublePart (mark : Mark) (chars : List Char) :
    Option (List Char × PartEnd × Mark × List Char) :=
  match chars with
  | [] => none
  | ['\\'] => none
  | '\\' :: char :: rest =>
    if isBreak char then some ([], .escapedBreak, (mark.skip 1).newLine, rest)
    else
      match readEscape? char rest with
      | none => none
      | some (meant, digits) => do
        let (part, ending, mark, rest) ← doublePart (mark.skip (2 + digits)) (rest.drop digits)
        return (meant :: part, ending, mark, rest)
  | char :: rest =>
    if char = '"' then some ([], .closed, mark.skip 1, rest)
    else if isBlank char || isBreak char then some ([], .blank, mark, char :: rest)
    else do
      let (part, ending, mark, rest) ← doublePart (mark.skip 1) rest
      return (char :: part, ending, mark, rest)
termination_by chars.length
decreasing_by all_goals simp; try omega

/-- Reads the parts of a quoted scalar behind its opening quote. -/
def quotedParts (readPart : Mark → List Char → Option (List Char × PartEnd × Mark × List Char)) :
    (fuel : Nat) → (text : List Char) → Mark → List Char → Option ScalarRead
  | 0, _, _, _ => none
  | fuel + 1, text, mark, chars =>
    if atDocumentMark mark chars then none
    else do
      let (part, ending, mark, rest) ← readPart mark chars
      let text := text ++ part
      match ending with
      | .closed => return ⟨text, false, mark, rest⟩
      | _ =>
        let start : Fold := { Fold.empty with escaped := ending = .escapedBreak }
        let (fold, mark, rest) ← Fold.read (-1) start mark rest
        quotedParts readPart fuel (text ++ fold.text) mark rest

/-- Reads a quoted scalar behind its opening quote. -/
def readQuoted (double : Bool) (mark : Mark) (chars : List Char) : Option ScalarRead :=
  quotedParts (if double then doublePart else singlePart) (chars.length + 1) [] mark chars

/-- Which breaks at the end of a block of lines belong to its text. -/
inductive Chomping where
  | strip
  | clip
  | keep
  deriving Repr, DecidableEq

/-- The header of a block of lines: how its end is chomped, and its indentation if given. -/
structure BlockHeader where
  chomping : Chomping
  indentation : Option Nat
  deriving Repr, DecidableEq

/-- The chomping that a character asks for. -/
def chomping? (char : Char) : Option Chomping :=
  if char = '-' then some .strip else if char = '+' then some .keep else none

/-- The indentation that a digit gives; zero is malformed. -/
def indentationDigit (char : Char) : Option Nat :=
  if char = '0' then none else some (char.toNat - '0'.toNat)

/-- Reads the indicators of a block of lines, in either order. -/
def blockIndicators (chars : List Char) : Option (BlockHeader × List Char) :=
  match chars with
  | [] => some (⟨.clip, none⟩, [])
  | first :: rest =>
    match chomping? first with
    | some chomping =>
      match rest with
      | digit :: behind =>
        if digit.isDigit then
          (indentationDigit digit).map fun indentation => (⟨chomping, some indentation⟩, behind)
        else some (⟨chomping, none⟩, rest)
      | [] => some (⟨chomping, none⟩, rest)
    | none =>
      if first.isDigit then do
        let indentation ← indentationDigit first
        match rest with
        | sign :: behind =>
          match chomping? sign with
          | some chomping => return (⟨chomping, some indentation⟩, behind)
          | none => return (⟨.clip, some indentation⟩, rest)
        | [] => return (⟨.clip, some indentation⟩, rest)
      else some (⟨.clip, none⟩, chars)

/-- Skips the rest of a header line: blanks and a comment. Nothing else may stand there. -/
def skipHeaderRest (chars : List Char) : Option (List Char) :=
  let behindBlanks := chars.dropWhile isBlank
  let behindComment := match behindBlanks with
    | '#' :: _ => behindBlanks.dropWhile fun char => !isBreak char
    | _ => behindBlanks
  match behindComment with
  | [] => some []
  | char :: rest => if isBreak char then some rest else none

/-- Reads empty lines and the indentation of the next one. Without a known indentation,
the widest of these lines gives it, and a tab among them is malformed. -/
def blockBreaks (indent : Option Nat) (widest : Nat) (breaks : List Char) (mark : Mark) :
    List Char → Option (List Char × Nat × Mark × List Char)
  | [] => some (breaks, max widest mark.column, mark, [])
  | char :: rest =>
    let indenting := match indent with
      | none => true
      | some column => mark.column < column
    if indenting && char = ' ' then blockBreaks indent widest breaks (mark.skip 1) rest
    else if indenting && char = '\t' then none
    else if isBreak char then
      blockBreaks indent (max widest mark.column) (breaks ++ [char]) mark.newLine rest
    else some (breaks, max widest mark.column, mark, char :: rest)

/-- What becomes of a break between two lines of a block. In a folded scalar it becomes a space, or
nothing if empty lines follow it, unless one of the two lines begins with a blank. -/
def joinLines (folded besideBlank : Bool) (lastBreak moreBreaks : List Char) : List Char :=
  if folded && !besideBlank && lastBreak = ['\n'] then
    if moreBreaks = [] then [' '] else moreBreaks
  else lastBreak ++ moreBreaks

/-- Reads the lines of a block that are indented by `indent`. -/
def blockLines (folded : Bool) (indent : Nat) (chomping : Chomping) :
    (fuel : Nat) → (blankBefore : Bool) → (text lastBreak moreBreaks : List Char) → Mark →
      List Char → Option ScalarRead
  | 0, _, _, _, _, _, _ => none
  | fuel + 1, blankBefore, text, lastBreak, moreBreaks, mark, chars =>
    if mark.column ≠ indent ∨ chars = [] then
      let ending := match chomping with
        | .strip => []
        | .clip => lastBreak
        | .keep => lastBreak ++ moreBreaks
      some ⟨text ++ ending, true, mark, chars⟩
    else
      let line := chars.takeWhile fun char => !isBreak char
      let blankHere := line.head?.any isBlank
      let text := text ++ joinLines folded (blankBefore || blankHere) lastBreak moreBreaks ++ line
      match chars.drop line.length with
      | [] => blockLines folded indent chomping fuel blankHere text [] [] (mark.skip line.length) []
      | lineBreak :: rest => do
        let (moreBreaks, _, mark, rest) ←
          blockBreaks (some indent) 0 [] (mark.skip line.length).newLine rest
        blockLines folded indent chomping fuel blankHere text [lineBreak] moreBreaks mark rest

/-- Reads a literal or folded scalar behind its `|` or `>`, inside a block indented by
`parentIndent`. -/
def readLines (folded : Bool) (parentIndent : Int) (mark : Mark) (chars : List Char) :
    Option ScalarRead := do
  let (header, behind) ← blockIndicators chars
  let rest ← skipHeaderRest behind
  let given := header.indentation.map fun width => (max parentIndent 0).toNat + width
  let (breaks, widest, mark, rest) ← blockBreaks given 0 [] mark.newLine rest
  let indent := given.getD (max widest (max (parentIndent + 1) 1).toNat)
  blockLines folded indent header.chomping (chars.length + 2) false [] [] breaks mark rest

end TimedCommands.Yaml
