import TimedCommands.Yaml.Token

/-!
# Documents as nodes

The structure of a document, its scalars still uninterpreted: what a plain scalar
means depends on who asks, so a node keeps the text and whether it stood plain, and the
tag it was given, if any. A value that is left out, as behind a dash or a colon, is an
empty plain scalar, with or without a tag.

The readers follow the tokens. Every call either consumes a token or hands over to a
reader of a smaller part, so twice the number of tokens bounds their depth.
-/

namespace TimedCommands.Yaml

/-- A part of a document. -/
inductive Node where
  | scalar (tag : Option String) (text : String) (plain : Bool)
  | sequence (tag : Option String) (items : List Node)
  | mapping (tag : Option String) (entries : List (Node × Node))
  deriving Repr

namespace Node

/-- A value that was left out. -/
def omitted : Node := scalar none "" true

/-- The tag before a node, and the tokens behind it. -/
def takeTag : List Token → Option String × List Token
  | .tag tag :: rest => (some tag, rest)
  | tokens => (none, tokens)

/-- The tag of a scalar that is not left out. A lone exclamation mark is none. -/
def scalarTag (tag : Option String) : Option String := if tag = some "!" then none else tag

/-- A node of which nothing but its tag is given. -/
def tagAlone? (tag : Option String) (tokens : List Token) : Option (Node × List Token) :=
  if tag.isSome then some (.scalar tag "" true, tokens) else none

/-- The tokens behind a given one, which must come next. -/
def expect (token : Token) : List Token → Option (List Token)
  | [] => none
  | first :: rest => if first = token then some rest else none

/-- Whether one of the given tokens, or the end, comes next. -/
def nextIs (tokens : List Token) (wanted : List Token) : Bool :=
  match tokens with
  | [] => true
  | first :: _ => first ∈ wanted

mutual

/-- Reads a node. Inside a block collection it may be a block collection itself, and as a
mapping's value a sequence whose dashes stand in the mapping's own column. -/
def read (block indentless : Bool) : (fuel : Nat) → List Token → Option (Node × List Token)
  | 0, _ => none
  | fuel + 1, tokens =>
    let (tag, tokens) := takeTag tokens
    match tokens with
    | .scalar text plain :: rest => some (.scalar (scalarTag tag) text plain, rest)
    | .flowSequence :: rest => do
      let (items, rest) ← readFlowItems true fuel rest
      return (.sequence tag items, rest)
    | .flowMapping :: rest => do
      let (entries, rest) ← readFlowEntries true fuel rest
      return (.mapping tag entries, rest)
    | .item :: _ =>
      if block && indentless then do
        let (items, rest) ← readIndentlessItems fuel tokens
        return (.sequence tag items, rest)
      else tagAlone? tag tokens
    | .blockSequence :: rest =>
      if block then do
        let (items, rest) ← readBlockItems fuel rest
        return (.sequence tag items, rest)
      else tagAlone? tag tokens
    | .blockMapping :: rest =>
      if block then do
        let (entries, rest) ← readBlockEntries fuel rest
        return (.mapping tag entries, rest)
      else tagAlone? tag tokens
    | _ => tagAlone? tag tokens

/-- Reads a node, unless it is left out in front of one of the given tokens. -/
def readUnless (ends : List Token) (block indentless : Bool) :
    (fuel : Nat) → List Token → Option (Node × List Token)
  | 0, _ => none
  | fuel + 1, tokens =>
    if nextIs tokens ends then some (omitted, tokens) else read block indentless fuel tokens

/-- Reads the items of a block sequence and its end. -/
def readBlockItems : (fuel : Nat) → List Token → Option (List Node × List Token)
  | 0, _ => none
  | fuel + 1, tokens =>
    match tokens with
    | .blockEnd :: rest => some ([], rest)
    | .item :: rest => do
      let (item, rest) ← readUnless [.item, .blockEnd] true false fuel rest
      let (items, rest) ← readBlockItems fuel rest
      return (item :: items, rest)
    | _ => none

/-- Reads the items of a sequence that has no indentation of its own. -/
def readIndentlessItems : (fuel : Nat) → List Token → Option (List Node × List Token)
  | 0, _ => none
  | fuel + 1, tokens =>
    match tokens with
    | .item :: rest => do
      let (item, rest) ← readUnless [.item, .key, .value, .blockEnd] true false fuel rest
      let (items, rest) ← readIndentlessItems fuel rest
      return (item :: items, rest)
    | _ => some ([], tokens)

/-- Reads the value of a mapping entry, which is left out if no colon comes next. -/
def readEntryValue (ends : List Token) (block : Bool) :
    (fuel : Nat) → List Token → Option (Node × List Token)
  | 0, _ => none
  | fuel + 1, tokens =>
    match tokens with
    | .value :: rest => readUnless ends block block fuel rest
    | _ => some (omitted, tokens)

/-- Reads the entries of a block mapping and its end. -/
def readBlockEntries : (fuel : Nat) → List Token → Option (List (Node × Node) × List Token)
  | 0, _ => none
  | fuel + 1, tokens =>
    let ends := [.key, .value, .blockEnd]
    match tokens with
    | .blockEnd :: rest => some ([], rest)
    | .key :: rest => do
      let (key, rest) ← readUnless ends true true fuel rest
      let (value, rest) ← readEntryValue ends true fuel rest
      let (entries, rest) ← readBlockEntries fuel rest
      return ((key, value) :: entries, rest)
    | _ => none

/-- Reads the items of a flow sequence and its end. An item may be a single mapping entry
without braces. -/
def readFlowItems (first : Bool) : (fuel : Nat) → List Token → Option (List Node × List Token)
  | 0, _ => none
  | fuel + 1, tokens =>
    match tokens with
    | .flowSequenceEnd :: rest => some ([], rest)
    | _ => do
      let tokens ← if first then some tokens else expect .comma tokens
      let ends := [.comma, .flowSequenceEnd]
      match tokens with
      | .flowSequenceEnd :: rest => some ([], rest)
      | .key :: rest => do
        let (key, rest) ← readUnless (.value :: ends) false false fuel rest
        let (value, rest) ← readEntryValue ends false fuel rest
        let (items, rest) ← readFlowItems false fuel rest
        return (.mapping none [(key, value)] :: items, rest)
      | _ => do
        let (item, rest) ← read false false fuel tokens
        let (items, rest) ← readFlowItems false fuel rest
        return (item :: items, rest)

/-- Reads the entries of a flow mapping and its end. -/
def readFlowEntries (first : Bool) :
    (fuel : Nat) → List Token → Option (List (Node × Node) × List Token)
  | 0, _ => none
  | fuel + 1, tokens =>
    match tokens with
    | .flowMappingEnd :: rest => some ([], rest)
    | _ => do
      let tokens ← if first then some tokens else expect .comma tokens
      let ends := [.comma, .flowMappingEnd]
      match tokens with
      | .flowMappingEnd :: rest => some ([], rest)
      | .key :: rest => do
        let (key, rest) ← readUnless (.value :: ends) false false fuel rest
        let (value, rest) ← readEntryValue ends false fuel rest
        let (entries, rest) ← readFlowEntries false fuel rest
        return ((key, value) :: entries, rest)
      | _ => do
        let (key, rest) ← read false false fuel tokens
        let (entries, rest) ← readFlowEntries false fuel rest
        return ((key, omitted) :: entries, rest)

end

/-- Reads the node of a document and the tokens behind it. -/
def readRoot (explicit : Bool) (tokens : List Token) : Option (Node × List Token) :=
  if explicit && nextIs tokens [.documentStart, .documentEnd] then some (omitted, tokens)
  else read true false (4 * tokens.length + 4) tokens

/-- The document of a token list, `some none` if there is none. A second document, or
anything else behind the first, is malformed. -/
def ofTokens? (tokens : List Token) : Option (Option Node) :=
  match tokens with
  | [] => some none
  | first :: behind => do
    let explicit := first = .documentStart
    let (root, rest) ← readRoot explicit (if explicit then behind else tokens)
    if rest.all (· = .documentEnd) then some (some root) else none

/-- Reads a document; `some none` if the source holds nothing but blanks and comments. -/
def ofSource? (source : String) : Option (Option Node) := do
  let tokens ← tokens? source
  ofTokens? tokens

end Node

end TimedCommands.Yaml
