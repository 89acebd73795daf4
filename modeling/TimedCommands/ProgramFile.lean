import TimedCommands.Script.Program
import TimedCommands.Structured.Program
import TimedCommands.Text.Position

/-!
# Program files

A program comes in one of two forms, and the name of its file tells which: the
extensions `yaml` and `yml`, in any case, are those of structured programs, and
everything else is a script. Errors are shown with the name in front, so that they can
be found.
-/

namespace TimedCommands

/-- What was read from a file of directives. -/
structure ProgramFile where
  directives : List Directive
  /-- What could not be read, as it is shown. -/
  errors : List String
  log : List LogRecord
  deriving Repr, DecidableEq

/-- Why a file holds no program at all. -/
inductive ProgramError where
  | script (name : String) (error : Script.LexError)
  | structured (name : String)
  deriving Repr

/-- The wording of an error. -/
def ProgramError.message : ProgramError → String
  | script name error => s!"{name}: {error.message}"
  | structured name => s!"{name}: malformed document"

namespace ProgramFile

/-- The last part of a path that names anything. -/
def baseName? (path : String) : Option String :=
  ((path.splitOn "/").filter fun part => part ≠ "" && part ≠ ".").getLast?

/-- What stands behind the last dot of a name, unless the name has only one and begins
with it. -/
def extension? (name : String) : Option String :=
  match name.splitOn "." with
  | [_] => none
  | ["", _] => none
  | parts => parts.getLast?

/-- Whether a path names a structured program. -/
def isStructured (path : String) : Bool :=
  match (baseName? path).bind extension? with
  | some extension => extension.toLower ∈ ["yaml", "yml"]
  | none => false

/-- The record that a program was read. -/
def readRecord (form : String) (directives : List Directive) : LogRecord :=
  ⟨.debug, s!"read {form} program", [("directives", toString directives.length)]⟩

/-- An error of a script with the place where it was found. -/
def placedError (name source : String) (error : Script.ReadError) : String :=
  let position := Text.Position.ofOffset source error.span.start
  s!"{name}:{position.line}:{position.column}: {error.message}"

/-- Reads a script. -/
def readScript (arity : ArityLookup) (name source : String) : Except ProgramError ProgramFile :=
  match Script.read arity source with
  | .error error => .error (.script name error)
  | .ok program =>
    .ok {
      directives := program.directives
      errors := program.errors.map (placedError name source)
      log := [readRecord "text" program.directives] }

/-- Reads a structured program. -/
def readStructured (name source : String) : Except ProgramError ProgramFile :=
  match Structured.read? source with
  | none => .error (.structured name)
  | some program =>
    .ok {
      directives := program.directives
      errors := program.errors.map fun error => s!"{name}: {error.message}"
      log := program.errors.map Structured.EntryError.record
        ++ [readRecord "structured" program.directives] }

/-- Reads a program in the form that its name tells. -/
def read (arity : ArityLookup) (name source : String) : Except ProgramError ProgramFile :=
  if isStructured name then readStructured name source else readScript arity name source

end ProgramFile

end TimedCommands
