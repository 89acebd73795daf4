import TimedCommands.Script.Token

/-!
# Lexemes

Splitting a script into tokens. Each recogniser answers with the longest prefix of
its class, as characters, so a token's length and payload are read off the same
list. Blanks and comments from `#` or `//` to the end of the line separate tokens
and are dropped.

A fraction counts only with a digit after the point, and an exponent only with a
digit after the letter and sign. Where that digit is missing, the number ends before
the point or letter and the rest is read on its own.
-/

namespace TimedCommands.Script

/-- A blank between tokens: space, tab, carriage return, newline or form feed. -/
def isBlank (char : Char) : Bool :=
  char = ' ' || char = '\t' || char = '\r' || char = '\n' || char = '\x0c'

/-- Whether a comment begins here. -/
def startsComment : List Char → Bool
  | '#' :: _ => true
  | '/' :: '/' :: _ => true
  | _ => false

/-- Everything up to the end of the line. -/
def lineRest (chars : List Char) : List Char := chars.takeWhile (· ≠ '\n')

/-- The fraction at the front: a point and at least one digit, or nothing. -/
def fractionLexeme : List Char → List Char
  | '.' :: rest =>
    let digits := rest.takeWhile Char.isDigit
    if digits = [] then [] else '.' :: digits
  | _ => []

/-- An exponent's sign at the front, if there is one. -/
def exponentSign : List Char → List Char
  | '+' :: _ => ['+']
  | '-' :: _ => ['-']
  | _ => []

/-- The exponent at the front: a letter, an optional sign and at least one digit, or nothing. -/
def exponentLexeme : List Char → List Char
  | letter :: rest =>
    if letter = 'e' ∨ letter = 'E' then
      let sign := exponentSign rest
      let digits := (rest.drop sign.length).takeWhile Char.isDigit
      if digits = [] then [] else letter :: sign ++ digits
    else []
  | [] => []

/-- The unsigned part of a number literal that begins with `digits`: whether it is real,
and its characters. -/
def unsignedLexeme (digits rest : List Char) : Bool × List Char :=
  let fraction := fractionLexeme rest
  let exponent := exponentLexeme (rest.drop fraction.length)
  (fraction ++ exponent ≠ [], digits ++ fraction ++ exponent)

/-- The token of a number literal. -/
def numberToken (sign : List Char) (unsigned : Bool × List Char) : Token :=
  let literal := String.ofList (sign ++ unsigned.2)
  if unsigned.1 then .real literal else .integer literal

/-- The body of a text literal after its opening quote, and whether a quote closes it.
A backslash takes the next character with it; neither may be a newline. -/
def textBody : List Char → List Char × Bool
  | [] => ([], false)
  | '\\' :: char :: rest =>
    if char = '\n' then ([], false)
    else
      let (body, closed) := textBody rest
      ('\\' :: char :: body, closed)
  | char :: rest =>
    if char = '"' then ([], true)
    else if char = '\n' ∨ char = '\\' then ([], false)
    else
      let (body, closed) := textBody rest
      (char :: body, closed)

/-- The token of a word: a keyword if it is spelled like one, else a name. -/
def wordToken (word : String) : Token :=
  match Keyword.ofText? word with
  | some keyword => .keyword keyword
  | none => .name word

/-- A token at the front of a text, with the characters it covers. -/
structure Lexeme where
  token : Token
  first : Char
  rest : List Char
  deriving Repr, DecidableEq

/-- All characters of a lexeme; there is at least one. -/
def Lexeme.chars (lexeme : Lexeme) : List Char := lexeme.first :: lexeme.rest

/-- The lexeme at the front of `first :: rest`, or the characters that begin none: an
unfinished text literal as far as it goes, else a single character. -/
def frontLexeme (first : Char) (rest : List Char) : Except (List Char) Lexeme :=
  if isIdentifierStart first then
    let word := rest.takeWhile isIdentifierPart
    .ok ⟨wordToken (String.ofList (first :: word)), first, word⟩
  else if first.isDigit then
    let digits := rest.takeWhile Char.isDigit
    let unsigned := unsignedLexeme digits (rest.drop digits.length)
    .ok ⟨numberToken [first] unsigned, first, unsigned.2⟩
  else if first = '-' then
    let digits := rest.takeWhile Char.isDigit
    if digits = [] then .error [first]
    else
      let unsigned := unsignedLexeme digits (rest.drop digits.length)
      .ok ⟨numberToken [first] unsigned, first, unsigned.2⟩
  else if first = '"' then
    let (body, closed) := textBody rest
    if closed then .ok ⟨.text (String.ofList body), first, body ++ ['"']⟩
    else .error (first :: body)
  else .error [first]

/-- The tokens of a text that begins at a byte offset of the source. -/
def lexFrom (offset : Nat) (chars : List Char) : Except LexError (List Located) :=
  match chars with
  | [] => .ok []
  | first :: rest =>
    if isBlank first then lexFrom (offset + first.utf8Size) rest
    else if startsComment (first :: rest) then
      let comment := first :: lineRest rest
      lexFrom (offset + Text.byteLength comment) (rest.drop (lineRest rest).length)
    else
      match frontLexeme first rest with
      | .error slice =>
        .error ⟨⟨offset, offset + Text.byteLength slice⟩, String.ofList slice⟩
      | .ok lexeme =>
        let stop := offset + Text.byteLength lexeme.chars
        match lexFrom stop (rest.drop lexeme.rest.length) with
        | .error error => .error error
        | .ok tokens => .ok (⟨lexeme.token, ⟨offset, stop⟩⟩ :: tokens)
termination_by chars.length
decreasing_by all_goals simp; try omega

/-- Splits a source into tokens. -/
def lex (source : String) : Except LexError (List Located) := lexFrom 0 source.toList

end TimedCommands.Script
