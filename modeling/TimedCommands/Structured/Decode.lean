import TimedCommands.Structured.Fields

/-!
# Reading structured entries

An entry is a mapping that names its time, its directive and the directive's fields.
Which problem is reported does depend on the order of the fields, but only that: the
time comes first, then the directive, then the fields that are present, in the order
in which they stand, and last the fields that are missing. Whether an entry is a
directive, and which, does not. Unknown fields are ignored, but for their tags: the tags of
the entry itself, of its keys and of its time do not matter, and any other tag in an entry
makes it none.

Keys that differ in their tags alone are of one name, and no field may be given twice.
-/

namespace TimedCommands.Structured

open TimedCommands.Yaml (Tree)

/-- The kinds of fields that directives have. -/
inductive FieldKind where
  | name
  | names
  | integer
  | integers
  | reals
  | value
  | targets
  | packing
  deriving Repr, DecidableEq

/-- A field of a directive. -/
structure Field where
  name : String
  kind : FieldKind
  deriving Repr, DecidableEq

/-- Checks that a tree can be read as a field of a kind. -/
def FieldKind.check (kind : FieldKind) (tree : Tree) : Except Problem Unit :=
  match kind with
  | name => (readName tree).map fun _ => ()
  | names => (readItems readName tree).map fun _ => ()
  | integer => (readInteger tree).map fun _ => ()
  | integers => (readItems readInteger tree).map fun _ => ()
  | reals => (readItems readReal tree).map fun _ => ()
  | value => (readValue tree).map fun _ => ()
  | targets => (readItems readTarget tree).map fun _ => ()
  | packing => (readPacking tree).map fun _ => ()

/-- The group, which every directive has. -/
def groupField : Field := ⟨"group", .name⟩

/-- The command of a target. -/
def commandField : Field := ⟨"command", .integer⟩

/-- The placeholder of a target. -/
def placeholderField : Field := ⟨"placeholder", .name⟩

/-- The fields of a lattice. -/
def latticeFields : List Field :=
  [⟨"targets", .targets⟩, ⟨"dims", .integers⟩, ⟨"origin", .reals⟩, ⟨"lengths", .reals⟩,
   ⟨"packing", .packing⟩]

/-- The fields of each directive, in the order in which they are declared. -/
def fieldsOf : Keyword → List Field
  | .createGroup => [groupField]
  | .addCommand => [groupField, ⟨"command_type", .name⟩, ⟨"placeholders", .names⟩]
  | .bindConstant => [groupField, commandField, placeholderField, ⟨"value", .value⟩]
  | .bindSequence =>
    [groupField, commandField, placeholderField, ⟨"initial", .value⟩, ⟨"increment", .value⟩]
  | .bindArgument =>
    [groupField, commandField, placeholderField, ⟨"source_command", .integer⟩,
     ⟨"source_placeholder", .name⟩]
  | .bindLattice2d => groupField :: latticeFields
  | .bindLattice3d => groupField :: latticeFields
  | .toggleCommand => [groupField, commandField]
  | .toggleAll => [groupField]
  | .enableCommand => [groupField, commandField]
  | .disableCommand => [groupField, commandField]
  | .enableAll => [groupField]
  | .disableAll => [groupField]
  | .executeSequence => [groupField, ⟨"total", .integer⟩, ⟨"period", .integer⟩]

/-- The named parts of an entry, in the order in which they stand. -/
abbrev Entries := List (String × Tree)

/-- Checks the known fields among the entries, in the order in which they stand, behind fields that
have been seen. -/
def checkFields (fields : List Field) (seen : List String) : Entries → Except Problem Unit
  | [] => .ok ()
  | (name, tree) :: rest =>
    match fields.find? fun field => field.name = name with
    | none => checkFields fields seen rest
    | some field =>
      if name ∈ seen then .error (.duplicateField name)
      else match field.kind.check tree with
        | .error problem => .error problem
        | .ok () => checkFields fields (name :: seen) rest

/-- Reads a field that must be present. -/
def required {α : Type} (entries : Entries) (name : String) (read : Reader α) : Except Problem α :=
  match entries.lookup name with
  | none => .error (.missingField name)
  | some tree => read tree

/-- Reads the command and placeholder of a target. -/
def readSlot (entries : Entries) : Except Problem RawSlot := do
  let command ← required entries "command" readInteger
  let placeholder ← required entries "placeholder" readName
  return ⟨command, placeholder⟩

/-- Reads a lattice; the packing may be left out. -/
def readLattice (entries : Entries) : Except Problem LatticeSpec := do
  let targets ← required entries "targets" (readItems readTarget)
  let dims ← required entries "dims" (readItems readInteger)
  let origin ← required entries "origin" (readItems readReal)
  let lengths ← required entries "lengths" (readItems readReal)
  let packing ← match entries.lookup "packing" with
    | none => pure Packing.standard
    | some tree => readPacking tree
  return ⟨targets, dims, origin, lengths, packing⟩

/-- Reads what a directive does to its group. -/
def readAction (entries : Entries) : Keyword → Except Problem Action
  | .createGroup => return .createGroup
  | .addCommand => do
    let typeName ← required entries "command_type" readName
    let placeholders ← required entries "placeholders" (readItems readName)
    return .addCommand typeName placeholders
  | .bindConstant => do
    let target ← readSlot entries
    let value ← required entries "value" readValue
    return .bindConstant target value
  | .bindSequence => do
    let target ← readSlot entries
    let initial ← required entries "initial" readValue
    let increment ← required entries "increment" readValue
    return .bindSequence target initial increment
  | .bindArgument => do
    let target ← readSlot entries
    let command ← required entries "source_command" readInteger
    let placeholder ← required entries "source_placeholder" readName
    return .bindArgument target ⟨command, placeholder⟩
  | .bindLattice2d => do
    let spec ← readLattice entries
    return .bindLattice .two spec
  | .bindLattice3d => do
    let spec ← readLattice entries
    return .bindLattice .three spec
  | .toggleCommand => do
    let command ← required entries "command" readInteger
    return .toggleCommand command
  | .toggleAll => return .toggleAll
  | .enableCommand => do
    let command ← required entries "command" readInteger
    return .switchCommand true command
  | .disableCommand => do
    let command ← required entries "command" readInteger
    return .switchCommand false command
  | .enableAll => return .switchAll true
  | .disableAll => return .switchAll false
  | .executeSequence => do
    let total ← required entries "total" readInteger
    let period ← required entries "period" readInteger
    return .executeSequence total period

/-- Separates the time from the other parts of an entry. Every key must be a text, and the
time is read where it stands. Of the other parts, none may hold a tag. -/
def separateTime (time : Option Time) : List (Tree × Tree) → Except Problem (Option Time × Entries)
  | [] => .ok (time, [])
  | (key, value) :: rest =>
    match key.untag with
    | .text name =>
      if name = "at" then
        if time.isSome then .error (.duplicateField "at")
        else do
          let read ← readTime value.untag
          separateTime (some read) rest
      else if value.hasTag then .error .taggedPart
      else do
        let (time, entries) ← separateTime time rest
        return (time, (name, value) :: entries)
    | other => .error (.wrongType other "field identifier")

/-- Reads the name of the directive, which may not be given twice. -/
def readKeyword (entries : Entries) : Except Problem Keyword := do
  let keyword ← required entries "directive" (readVariant Keyword.all Keyword.text)
  if 1 < entries.countP (·.1 = "directive") then throw (.duplicateField "directive")
  else return keyword

/-- Reads the parts of an entry. -/
def decodeParts (parts : List (Tree × Tree)) : Except Problem Directive := do
  let (found, entries) ← separateTime none parts
  let some time := found | throw (.missingField "at")
  let keyword ← readKeyword entries
  checkFields (fieldsOf keyword) [] entries
  let group ← required entries "group" readName
  let action ← readAction entries keyword
  return ⟨time, group, action⟩

/-- Reads an entry. An entry that is left out has no parts. -/
def decode (entry : Tree) : Except Problem Directive :=
  match entry.untag with
  | .mapping parts => decodeParts parts
  | .null => decodeParts []
  | other => .error (.wrongType other "struct Directive")

end TimedCommands.Structured
