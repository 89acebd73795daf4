import TimedCommands.Log
import TimedCommands.Structured.Decode
import TimedCommands.Structured.Encode
import TimedCommands.Text.Blank
import TimedCommands.Yaml.Write

/-!
# Structured programs

A structured program is a document that lists entries, one directive each. An entry
that is no directive is skipped and reported with its place in the list; only a
document that is malformed, or no list, has no program at all.
-/

namespace TimedCommands.Structured

open TimedCommands.Yaml (Node Tree)

/-- An entry that is no directive, counted from one. -/
structure EntryError where
  entry : Nat
  problem : Problem
  deriving Repr

namespace EntryError

/-- The wording of an entry's error. -/
def message (error : EntryError) : String := s!"entry {error.entry}: {error.problem.message}"

/-- The log record of a skipped entry. -/
def record (error : EntryError) : LogRecord :=
  ⟨.warning, "skipping malformed entry",
    [("entry", toString error.entry), ("source", error.problem.message)]⟩

end EntryError

/-- The directives of a structured program and the entries that are none, each in order. -/
structure Program where
  directives : List Directive
  errors : List EntryError
  deriving Repr

/-- Reads entries; the first has the given place in the list. -/
def readEntries : (place : Nat) → List Tree → Program
  | _, [] => ⟨[], []⟩
  | place, tree :: rest =>
    let program := readEntries (place + 1) rest
    match decode tree with
    | .ok directive => { program with directives := directive :: program.directives }
    | .error problem => { program with errors := ⟨place, problem⟩ :: program.errors }

/-- The entries of a document. A document that is left out has none. -/
def entries? : Option Node → Option (List Tree)
  | none => some []
  | some (.scalar _ "" true) => some []
  | some (.sequence _ items) => items.mapM (Tree.ofNode? (Tree.depthLimit - 1))
  | some _ => none

/-- Reads a structured program, if the document has one. -/
def read? (source : String) : Option Program :=
  if Text.isBlankText source then some ⟨[], []⟩
  else do
    let document ← Node.ofSource? source
    let trees ← entries? document
    return readEntries 1 trees

/-- Writes directives as a structured program. -/
def write (directives : List Directive) : String :=
  Yaml.write (.sequence (directives.map encode))

/-- Whether directives are read back from what is written of them. -/
def readsBack (directives : List Directive) : Bool :=
  match read? (write directives) with
  | none => false
  | some program =>
    program.directives.length = directives.length
      && (program.directives.zip directives).all fun (found, given) => found.agrees given

end TimedCommands.Structured
