import TimedCommands.CommandLine.Arguments
import TimedCommands.CommandLine.Files
import TimedCommands.ProgramFile
import TimedCommands.Settings

/-!
# Outcomes of commands

A command is a computation that logs as it goes and may stop early. Its outcome is the
log, an exit code, and a file to be written, if there is one.
-/

namespace TimedCommands.CommandLine

/-- A file and what it is to hold. -/
structure WrittenFile where
  path : String
  content : String
  deriving Repr, DecidableEq

/-- What came of a command. -/
structure Outcome where
  exitCode : UInt32
  log : List LogRecord
  written : Option WrittenFile
  deriving Repr, DecidableEq

namespace Outcome

/-- Nothing was done, because the arguments ask for help or are misused. -/
def refused (refusal : Refusal) : Outcome := ⟨refusal.exitCode, [], none⟩

/-- The command stopped early with an error. -/
def failed (message : String) : Outcome := ⟨1, [LogRecord.plain .error message], none⟩

/-- The outcome with earlier records in front of its log. -/
def after (outcome : Outcome) (earlier : List LogRecord) : Outcome :=
  { outcome with log := earlier ++ outcome.log }

end Outcome

/-- The settings of a file, or the standard ones if none is named. -/
def readSettings (files : Files) (path : Option String) : Except String Settings :=
  match path with
  | none => .ok Settings.standard
  | some path =>
    match files.read path with
    | .error error => .error s!"failed to read config file: {error.message}"
    | .ok source => (Settings.read source).mapError SettingsError.message

/-- The source of a program. -/
def readSource (files : Files) (path : String) : Except String String :=
  (files.read path).mapError fun error => s!"failed to read '{path}': {error.message}"

end TimedCommands.CommandLine
