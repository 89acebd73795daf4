import TimedCommands.Script.Stream

/-!
# Reading the fields of a directive

A keyword is followed by a time, a group and the fields that it asks for. Each field is read from
one token; the first that does not fit is the error. A literal out of range is reported behind the
literal, an unknown packing before its name, but both at the place of the token.
-/

namespace TimedCommands.Script

/-- The text that a text literal stands for. A backslash before `n`, `t`, `r` or `0` makes
a control character; before any other character it is dropped. -/
def unescape : List Char → List Char
  | [] => []
  | '\\' :: char :: rest =>
    let meant := match char with
      | 'n' => '\n'
      | 't' => '\t'
      | 'r' => '\r'
      | '0' => '\x00'
      | other => other
    meant :: unescape rest
  | char :: rest => char :: unescape rest

/-- The number that digits denote. There has to be one at least. -/
def literalNatural? (digits : List Char) : Option Nat :=
  if digits ≠ [] ∧ digits.all Char.isDigit then some (Nat.ofDigitChars 10 digits 0) else none

/-- The integer that a literal denotes: an optional minus sign and digits. -/
def literalInteger? : List Char → Option Int
  | '-' :: digits => (literalNatural? digits).map fun number => -Int.ofNat number
  | digits => (literalNatural? digits).map Int.ofNat

/-- The 64-bit integer that a literal denotes, if it fits. -/
def literalInt64? (literal : String) : Option Int64 :=
  (literalInteger? literal.toList).bind Progression.fitInteger?

/-- The time that a literal denotes: it has no sign and fits 64 bits. -/
def literalTime? (literal : String) : Option Time :=
  match literalNatural? literal.toList with
  | some number => if number < UInt64.size then some (UInt64.ofNat number) else none
  | none => none

/-- The real nearest to the decimal that a literal denotes. -/
def literalReal? (literal : String) : Option Float :=
  (Decimal.ofChars? literal.toList).map Decimal.toFloat

/-! Readers of fields. -/

/-- Reads a time. -/
def readTime : FieldReader Time := do
  let (literal, span) ← FieldReader.expect "simulation time" fun
    | .integer literal => some literal
    | _ => none
  match literalTime? literal with
  | some time => return time
  | none => FieldReader.fail (.badTime literal) span

/-- Reads a name. -/
def readName (what : String) : FieldReader (String × Span) :=
  FieldReader.expect what fun
    | .name name => some name
    | _ => none

/-- Reads a group name. -/
def readGroup : FieldReader GroupName := do
  let (name, _) ← readName "group name"
  return name

/-- Reads a placeholder. -/
def readPlaceholder : FieldReader Placeholder := do
  let (name, _) ← readName "placeholder name"
  return name

/-- The integer of a literal, or the error that it is out of range. -/
def integerOf (literal : String) (span : Span) : FieldReader Int64 :=
  match literalInt64? literal with
  | some number => return number
  | none => FieldReader.fail (.integerRange literal) span

/-- The real of a literal, or the error that it is none. -/
def realOf (literal : String) (span : Span) : FieldReader Float :=
  match literalReal? literal with
  | some number => return number
  | none => FieldReader.fail (.badNumber literal) span

/-- Reads an integer. -/
def readInteger (what : String) : FieldReader Int64 := do
  let (literal, span) ← FieldReader.expect what fun
    | .integer literal => some literal
    | _ => none
  integerOf literal span

/-- Reads a number and keeps its kind. -/
def readNumber (what : String) : FieldReader Value := do
  let ((isReal, literal), span) ← FieldReader.expect what fun
    | .integer literal => some (false, literal)
    | .real literal => some (true, literal)
    | _ => none
  if isReal then
    let number ← realOf literal span
    return .real number
  else
    let number ← integerOf literal span
    return .integer number

/-- Reads a number as a real, whichever its kind. -/
def readReal (what : String) : FieldReader Float := do
  let (literal, span) ← FieldReader.expect what fun
    | .integer literal => some literal
    | .real literal => some literal
    | _ => none
  realOf literal span

/-- Reads any value: a text literal or a number. -/
def readValue : FieldReader Value :=
  FieldReader.peeking fun
    | some (.text raw) => do
      FieldReader.skip
      return .text (String.ofList (unescape raw.toList))
    | _ => readNumber "value"

/-- A text ahead is taken, and its value is what its escapes come to. -/
theorem run_readValue_text (raw : String) (span : Span) (rest : List Located) (stop : Stop) :
    readValue.run ⟨⟨.text raw, span⟩ :: rest, stop⟩ =
      (.ok (.text (String.ofList (unescape raw.toList))), ⟨rest, stop⟩) :=
  rfl

/-- Without a text literal ahead, a value has to be a number. -/
theorem run_readValue_of_not_text {stream : TokenStream}
    (noText : ∀ raw, stream.peek? ≠ some (.text raw)) :
    readValue.run stream = (readNumber "value").run stream := by
  rw [readValue, FieldReader.peeking]
  dsimp only
  split
  case h_1 raw isText => exact absurd isText (noText raw)
  case h_2 => rfl

/-- Reads a command index, unchecked, and a placeholder. -/
def readSlot (what : String) : FieldReader RawSlot := do
  let command ← readInteger what
  let placeholder ← readPlaceholder
  return ⟨command, placeholder⟩

/-- Reads the packing of a lattice. It may be left out, but a name here must be one. -/
def readPacking : FieldReader Packing :=
  FieldReader.peeking fun
    | some (.name name) =>
      match Packing.ofName? name with
      | some packing => do
        FieldReader.skip
        return packing
      | none => do
        let span ← FieldReader.place
        FieldReader.fail (.unknownPacking name) span
    | _ => return Packing.standard

/-- A name ahead is taken as that of a packing, and is an error if it names none. -/
theorem run_readPacking_name (name : String) (span : Span) (rest : List Located) (stop : Stop) :
    readPacking.run ⟨⟨.name name, span⟩ :: rest, stop⟩ =
      match Packing.ofName? name with
      | some packing => (.ok packing, ⟨rest, stop⟩)
      | none => (.error ⟨.unknownPacking name, span⟩, ⟨⟨.name name, span⟩ :: rest, stop⟩) := by
  rw [readPacking, FieldReader.run_peeking_cons]
  dsimp only
  cases Packing.ofName? name <;> rfl

/-- Without a name ahead, no packing is taken. -/
theorem run_readPacking_of_not_name {stream : TokenStream}
    (noName : ∀ name, stream.peek? ≠ some (.name name)) :
    readPacking.run stream = (.ok .rectangular, stream) := by
  rw [readPacking, FieldReader.peeking]
  dsimp only
  split
  case h_1 name isName => exact absurd isName (noName name)
  case h_2 => rfl

/-- Reads a lattice: targets, dimensions, origin, lengths, and optionally a packing. -/
def readLattice (rank : Rank) : FieldReader LatticeSpec := do
  let targets ← FieldReader.times (readSlot "command index") rank.axes
  let dims ← FieldReader.times (readInteger "lattice dimension") rank.axes
  let origin ← FieldReader.times (readReal "lattice origin") rank.axes
  let lengths ← FieldReader.times (readReal "lattice length") rank.axes
  let packing ← readPacking
  return ⟨targets, dims, origin, lengths, packing⟩

/-- Reads the fields that a keyword asks for. -/
def readAction (arity : ArityLookup) : Keyword → FieldReader Action
  | .createGroup => return .createGroup
  | .addCommand => do
    let (typeName, span) ← readName "command type"
    match arity typeName with
    | none => FieldReader.fail (.unknownCommandType typeName) span
    | some count => do
      let placeholders ← FieldReader.times readPlaceholder count
      return .addCommand typeName placeholders
  | .bindConstant => do
    let target ← readSlot "command index"
    let value ← readValue
    return .bindConstant target value
  | .bindSequence => do
    let target ← readSlot "command index"
    let initial ← readNumber "initial value"
    let increment ← readNumber "increment"
    return .bindSequence target initial increment
  | .bindArgument => do
    let target ← readSlot "command index"
    let source ← readSlot "source command index"
    return .bindArgument target source
  | .bindLattice2d => do
    let spec ← readLattice .two
    return .bindLattice .two spec
  | .bindLattice3d => do
    let spec ← readLattice .three
    return .bindLattice .three spec
  | .toggleCommand => do
    let command ← readInteger "command index"
    return .toggleCommand command
  | .toggleAll => return .toggleAll
  | .enableCommand => do
    let command ← readInteger "command index"
    return .switchCommand true command
  | .disableCommand => do
    let command ← readInteger "command index"
    return .switchCommand false command
  | .enableAll => return .switchAll true
  | .disableAll => return .switchAll false
  | .executeSequence => do
    let total ← readInteger "repetition count"
    let period ← readInteger "period"
    return .executeSequence total period

/-- Reads the time, group and fields of a directive. -/
def readFields (arity : ArityLookup) (keyword : Keyword) : FieldReader Directive := do
  let time ← readTime
  let group ← readGroup
  let action ← readAction arity keyword
  return ⟨time, group, action⟩

/-- Reads a directive, which begins with its keyword. -/
def readDirective (arity : ArityLookup) : FieldReader Directive :=
  FieldReader.peeking fun
    | some (.keyword keyword) => do
      FieldReader.skip
      readFields arity keyword
    | found => do
      let span ← FieldReader.place
      FieldReader.fail (.stray found) span

end TimedCommands.Script
