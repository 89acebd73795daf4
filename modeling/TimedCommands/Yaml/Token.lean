import TimedCommands.Yaml.Scalar

/-!
# Tokens of a document

A document is split into scalars and structure. Brackets show the structure of flow
collections themselves; the structure of block collections follows from columns, and
the splitter adds tokens for it. The beginning of a key is known only once its colon
is seen, so a place where a key could begin is remembered, and the tokens that begin
the key, and its mapping if it is the first, are put in there afterwards.

A remembered place must lie on the current line, at most 1024 characters back. Where
the block structure requires a key, losing the place makes the document malformed.
-/

namespace TimedCommands.Yaml

/-- A token of a document. -/
inductive Token where
  | documentStart
  | documentEnd
  | blockSequence
  | blockMapping
  | blockEnd
  | flowSequence
  | flowSequenceEnd
  | flowMapping
  | flowMappingEnd
  /-- A dash that begins an item of a block sequence. -/
  | item
  /-- A comma between the items of a flow collection. -/
  | comma
  | key
  | value
  | scalar (text : String) (plain : Bool)
  /-- A tag, written out in full. -/
  | tag (tag : String)
  deriving Repr, DecidableEq

/-- Whether a character may stand in the handle of a tag. -/
def isHandleChar (char : Char) : Bool := char.isAlphanum || char = '_' || char = '-'

/-- Whether a character may stand in a tag. Escapes of others by their bytes are not read. -/
def isTagChar (char : Char) : Bool :=
  isHandleChar char || char ∈ [';', '/', '?', ':', '@', '&', '=', '+', '$', '.', '!', '~', '*', '\'', '(', ')']

/-- Whether a character may stand in a tag between angle brackets. -/
def isVerbatimChar (char : Char) : Bool := isTagChar char || char ∈ [',', '[', ']']

/-- The beginning of the tags that documents share. Two exclamation marks stand for it. -/
def sharedTagStart : List Char := "tag:yaml.org,2002:".toList

/-- The tag that is written behind an exclamation mark, in full, and the characters behind it. Other
handles than those that every document has would have to be declared. -/
def readTag : List Char → Option (List Char × List Char)
  | '<' :: chars =>
    match chars.span isVerbatimChar with
    | (tag, '>' :: rest) => if tag = [] then none else some (tag, rest)
    | _ => none
  | '!' :: chars =>
    let (name, rest) := chars.span isTagChar
    if name = [] then none else some (sharedTagStart ++ name, rest)
  | chars =>
    let (name, rest) := chars.span isTagChar
    -- A second exclamation mark right behind letters ends a handle that nothing declares.
    if (name.dropWhile isHandleChar).head? = some '!' then none else some ('!' :: name, rest)

/-- A place where a key may have begun. -/
structure KeyPlace where
  required : Bool
  position : Nat
  mark : Mark
  deriving Repr, DecidableEq

/-- How far a document has been split. The tokens are held in reverse; the current
indentation is `-1` outside of every block collection. -/
structure Splitter where
  rest : List Char
  mark : Mark
  tokens : List Token
  indent : Int
  outerIndents : List Int
  keyPlace : Option KeyPlace
  outerKeyPlaces : List (Option KeyPlace)
  keyAllowed : Bool

namespace Splitter

/-- Before the first character. -/
def start (chars : List Char) : Splitter where
  rest := chars
  mark := Mark.origin
  tokens := []
  indent := -1
  outerIndents := []
  keyPlace := none
  outerKeyPlaces := []
  keyAllowed := true

/-- Whether a flow collection is open. -/
def inFlow (splitter : Splitter) : Bool := splitter.outerKeyPlaces ≠ []

/-- Appends a token. -/
def push (splitter : Splitter) (token : Token) : Splitter :=
  { splitter with tokens := token :: splitter.tokens }

/-- Puts a token in front of the one at a position. -/
def insert (splitter : Splitter) (position : Nat) (token : Token) : Splitter :=
  let behind := splitter.tokens.length - position
  { splitter with
    tokens := splitter.tokens.take behind ++ token :: splitter.tokens.drop behind }

/-- Moves over characters of the current line. -/
def skip (splitter : Splitter) (count : Nat) : Splitter :=
  { splitter with rest := splitter.rest.drop count, mark := splitter.mark.skip count }

/-- Opens a block collection at a column, unless one is open there already. -/
def openBlock (splitter : Splitter) (column : Nat) (position : Nat) (token : Token) : Splitter :=
  if !splitter.inFlow ∧ splitter.indent < column then
    { splitter.insert position token with
      indent := column, outerIndents := splitter.indent :: splitter.outerIndents }
  else splitter

/-- The tokens, reversed, and the indentations after closing block collections right of a
column. -/
def closeTo (column : Int) : (tokens : List Token) → (indent : Int) → List Int →
    List Token × Int × List Int
  | tokens, indent, [] => (tokens, indent, [])
  | tokens, indent, outer :: rest =>
    if column < indent then closeTo column (.blockEnd :: tokens) outer rest
    else (tokens, indent, outer :: rest)

/-- Closes the block collections right of a column. -/
def closeBlocks (splitter : Splitter) (column : Int) : Splitter :=
  if splitter.inFlow then splitter
  else
    let (tokens, indent, outerIndents) :=
      closeTo column splitter.tokens splitter.indent splitter.outerIndents
    { splitter with tokens, indent, outerIndents }

/-- Forgets the remembered place, which must not be a required key. -/
def forgetKey (splitter : Splitter) : Option Splitter :=
  match splitter.keyPlace with
  | some place => if place.required then none else some { splitter with keyPlace := none }
  | none => some splitter

/-- Remembers the current place, if a key may begin here. -/
def rememberKey (splitter : Splitter) : Option Splitter :=
  if splitter.keyAllowed then do
    let cleared ← splitter.forgetKey
    return { cleared with
      keyPlace := some {
        required := !splitter.inFlow && splitter.indent = splitter.mark.column
        position := splitter.tokens.length
        mark := splitter.mark } }
  else some splitter

/-- Whether a remembered place can no longer begin a key. -/
def isStale (place : KeyPlace) (mark : Mark) : Bool :=
  place.mark.line < mark.line || place.mark.index + 1024 < mark.index

/-- Forgets a place that has become stale. -/
def dropStale (mark : Mark) : Option KeyPlace → Option (Option KeyPlace)
  | none => some none
  | some place =>
    if isStale place mark then if place.required then none else some none
    else some (some place)

/-- Forgets all places that have become stale. -/
def dropStaleKeys (splitter : Splitter) : Option Splitter := do
  let keyPlace ← dropStale splitter.mark splitter.keyPlace
  let outerKeyPlaces ← splitter.outerKeyPlaces.mapM (dropStale splitter.mark)
  return { splitter with keyPlace, outerKeyPlaces }

/-- Moves over blanks, comments and line breaks to the next token. Outside of flow
collections, a new line may begin with a key, and a tab may not stand before one. -/
def toNextToken (inFlow keyAllowed : Bool) (mark : Mark) (inComment : Bool) :
    List Char → Bool × Mark × List Char
  | [] => (keyAllowed, mark, [])
  | char :: rest =>
    if isBreak char then toNextToken inFlow (keyAllowed || !inFlow) mark.newLine false rest
    else if inComment then toNextToken inFlow keyAllowed (mark.skip 1) true rest
    else if char = ' ' || (char = '\t' && (inFlow || !keyAllowed)) then
      toNextToken inFlow keyAllowed (mark.skip 1) false rest
    else if char = '#' then toNextToken inFlow keyAllowed (mark.skip 1) true rest
    else if char = '\ufeff' && mark.column = 0 then
      toNextToken inFlow keyAllowed (mark.skip 1) false rest
    else (keyAllowed, mark, char :: rest)

/-- Takes over a scalar that was read. -/
def takeScalar (splitter : Splitter) (plain : Bool) (read : ScalarRead) : Splitter :=
  { splitter.push (.scalar (String.ofList read.text) plain) with
    rest := read.rest, mark := read.mark, keyAllowed := plain && read.endsLine }

/-- Opens a flow collection. -/
def openFlow (splitter : Splitter) (token : Token) : Option Splitter := do
  let splitter ← splitter.rememberKey
  return { (splitter.skip 1).push token with
    keyPlace := none, outerKeyPlaces := splitter.keyPlace :: splitter.outerKeyPlaces,
    keyAllowed := true }

/-- Closes a flow collection. A bracket that closes none is left for the reader of the
structure to refuse. -/
def closeFlow (splitter : Splitter) (token : Token) : Option Splitter := do
  let splitter ← splitter.forgetKey
  let (keyPlace, outerKeyPlaces) := match splitter.outerKeyPlaces with
    | [] => (none, [])
    | place :: outer => (place, outer)
  return { (splitter.skip 1).push token with keyPlace, outerKeyPlaces, keyAllowed := false }

/-- Takes a comma. -/
def takeComma (splitter : Splitter) : Option Splitter := do
  let splitter ← splitter.forgetKey
  return { (splitter.skip 1).push .comma with keyAllowed := true }

/-- Takes a dash that begins an item. -/
def takeItem (splitter : Splitter) : Option Splitter := do
  if !splitter.inFlow && !splitter.keyAllowed then none
  else
    let opened := splitter.openBlock splitter.mark.column splitter.tokens.length .blockSequence
    let splitter ← opened.forgetKey
    return { (splitter.skip 1).push .item with keyAllowed := true }

/-- Takes a question mark that begins a key. -/
def takeKey (splitter : Splitter) : Option Splitter := do
  if !splitter.inFlow && !splitter.keyAllowed then none
  else
    let opened := splitter.openBlock splitter.mark.column splitter.tokens.length .blockMapping
    let splitter ← opened.forgetKey
    return { (splitter.skip 1).push .key with keyAllowed := !splitter.inFlow }

/-- Takes a colon: the remembered place becomes a key, or the key is empty. -/
def takeValue (splitter : Splitter) : Option Splitter :=
  match splitter.keyPlace with
  | some place =>
    let keyed := (splitter.insert place.position .key).openBlock place.mark.column place.position
      .blockMapping
    some { (keyed.skip 1).push .value with keyPlace := none, keyAllowed := false }
  | none =>
    if !splitter.inFlow && !splitter.keyAllowed then none
    else
      let opened := splitter.openBlock splitter.mark.column splitter.tokens.length .blockMapping
      some { (opened.skip 1).push .value with keyAllowed := !splitter.inFlow }

/-- Takes a quoted scalar. -/
def takeQuoted (splitter : Splitter) (double : Bool) : Option Splitter := do
  let splitter ← splitter.rememberKey
  let read ← readQuoted double (splitter.mark.skip 1) (splitter.rest.drop 1)
  return splitter.takeScalar false read

/-- Takes a literal or folded scalar. -/
def takeLines (splitter : Splitter) (folded : Bool) : Option Splitter := do
  let splitter ← splitter.forgetKey
  let read ← readLines folded splitter.indent (splitter.mark.skip 1) (splitter.rest.drop 1)
  return { splitter.takeScalar false read with keyAllowed := true }

/-- Takes a tag. A blank has to follow, or in a flow collection a comma. -/
def takeTag (splitter : Splitter) : Option Splitter := do
  let splitter ← splitter.rememberKey
  let (tag, rest) ← readTag (splitter.rest.drop 1)
  if blankNext rest || (splitter.inFlow && rest.head? = some ',') then
    let length := splitter.rest.length - rest.length
    some { (splitter.skip length).push (.tag (String.ofList tag)) with keyAllowed := false }
  else none

/-- Takes a plain scalar. -/
def takePlain (splitter : Splitter) : Option Splitter := do
  let splitter ← splitter.rememberKey
  let read ← readPlain splitter.inFlow (splitter.indent + 1) splitter.mark splitter.rest
  return splitter.takeScalar true read

/-- Takes a mark between documents. -/
def takeDocumentMark (splitter : Splitter) (token : Token) : Option Splitter := do
  let splitter ← (splitter.closeBlocks (-1)).forgetKey
  return { (splitter.skip 3).push token with keyAllowed := false }

/-- The characters that begin no plain scalar, unless the exceptions of
`startsPlain` apply. -/
def indicators : List Char :=
  ['-', '?', ':', ',', '[', ']', '\x7b', '\x7d', '#', '&', '*', '!', '|', '>', '\'', '"', '%', '@', '\x60']

/-- Whether `char :: rest` begins a plain scalar. -/
def startsPlain (inFlow : Bool) (char : Char) (rest : List Char) : Bool :=
  if char ∈ indicators then
    match rest with
    | [] => char = '-'
    | next :: _ =>
      (char = '-' && !isBlank next) || (!inFlow && (char = '?' || char = ':') && !blankNext rest)
  else !isBlank char && !isBreak char

/-- Takes the token that begins with `char :: rest`. Anchors, aliases and document settings are
not part of the form that is read. -/
def takeToken (splitter : Splitter) (char : Char) (rest : List Char) : Option Splitter :=
  if isDocumentMark '-' splitter.mark splitter.rest then splitter.takeDocumentMark .documentStart
  else if isDocumentMark '.' splitter.mark splitter.rest then splitter.takeDocumentMark .documentEnd
  else if char = '[' then splitter.openFlow .flowSequence
  else if char = '\x7b' then splitter.openFlow .flowMapping
  else if char = ']' then splitter.closeFlow .flowSequenceEnd
  else if char = '\x7d' then splitter.closeFlow .flowMappingEnd
  else if char = ',' then splitter.takeComma
  else if char = '-' && blankNext rest then splitter.takeItem
  else if char = '?' && (splitter.inFlow || blankNext rest) then splitter.takeKey
  else if char = ':' && (splitter.inFlow || blankNext rest) then splitter.takeValue
  else if char = '!' then splitter.takeTag
  else if char = '|' && !splitter.inFlow then splitter.takeLines false
  else if char = '>' && !splitter.inFlow then splitter.takeLines true
  else if char = '\'' then splitter.takeQuoted false
  else if char = '"' then splitter.takeQuoted true
  else if startsPlain splitter.inFlow char rest then splitter.takePlain
  else none

/-- Ends the document: all blocks close, and no required key may be open. -/
def finish (splitter : Splitter) : Option (List Token) := do
  let splitter ← (splitter.closeBlocks (-1)).forgetKey
  return splitter.tokens.reverse

/-- Takes tokens until the source ends. -/
def run : (fuel : Nat) → Splitter → Option (List Token)
  | 0, _ => none
  | fuel + 1, splitter => do
    let (keyAllowed, mark, rest) :=
      toNextToken splitter.inFlow splitter.keyAllowed splitter.mark false splitter.rest
    let moved := { splitter with keyAllowed, mark, rest }
    let current ← moved.dropStaleKeys
    match rest with
    | [] => current.finish
    | char :: behind =>
      let next ← (current.closeBlocks mark.column).takeToken char behind
      run fuel next

end Splitter

/-- Splits a source into tokens, if it is well-formed so far. -/
def tokens? (source : String) : Option (List Token) :=
  let chars := source.toList
  if chars.all isPermitted then (Splitter.start (normalizeBreaks chars)).run (chars.length + 1)
  else none

end TimedCommands.Yaml
