import TimedCommands.CommandLine.Check
import TimedCommands.CommandLine.Run

/-!
# The program

The first argument names the command. The outer layer reads the files that the command
asks for, prints the log, and writes the file of the outcome. Whether that file can be
created shows only when it is written; a command whose file could not be created is
asked again, with that answer.
-/

namespace TimedCommands.CommandLine

/-- The error of the file system as commands know it. -/
def FileError.classify : IO.Error → FileError
  | .noFileOrDirectory .. => .missing
  | .permissionDenied .. => .denied
  | .inappropriateType _ code _ => if code = 20 then .notDirectory else .isDirectory
  | _ => .notText

/-- A path and what reading it gave. -/
structure FoundFile where
  path : String
  content : Except FileError String

/-- Reads a path. -/
def FoundFile.look (path : String) : IO FoundFile := do
  try
    let content ← IO.FS.readFile path
    return ⟨path, .ok content⟩
  catch error => return ⟨path, .error (.classify error)⟩

/-- Whether there is a file, readable or not. -/
def FoundFile.exists (found : FoundFile) : Bool :=
  match found.content with
  | .ok _ | .error .denied | .error .notText => true
  | .error _ => false

/-- The answers that follow from what was found. -/
def Files.ofFound (found : List FoundFile) (create : Except FileError Unit) : Files where
  isFile path := found.any fun file => file.path = path && file.exists
  read path :=
    match found.find? fun file => file.path = path with
    | some file => file.content
    | none => .error .missing
  create _ := create

/-- Writes the file of an outcome, if there is one. -/
def Outcome.write (outcome : Outcome) : IO (Except FileError Unit) := do
  match outcome.written with
  | none => return .ok ()
  | some file =>
    try
      IO.FS.writeFile file.path file.content
      return .ok ()
    catch error => return .error (.classify error)

/-- Carries out what a command does with files, and prints its log. -/
def execute (paths : List String) (perform : Files → Outcome) : IO UInt32 := do
  let found ← paths.mapM FoundFile.look
  let expected := perform (.ofFound found (.ok ()))
  let created ← expected.write
  let outcome := perform (.ofFound found created)
  for record in outcome.log do
    IO.println record.line
  return outcome.exitCode

/-- Answers arguments that lead to no work. -/
def explain (refusal : Refusal) : IO UInt32 := do
  IO.eprintln "usage: check <program> [--config FILE]"
  IO.eprintln "       run <program> [--config FILE] [--start T] [--end T] [--output FILE]"
  return refusal.exitCode

end TimedCommands.CommandLine

open TimedCommands.CommandLine in
/-- The command line. -/
def main (arguments : List String) : IO UInt32 := do
  match arguments with
  | "check" :: rest =>
    match CheckRequest.ofArguments rest with
    | .error refusal => explain refusal
    | .ok request => execute (request.program :: request.config.toList) request.perform
  | "run" :: rest =>
    match RunRequest.ofArguments rest with
    | .error refusal => explain refusal
    | .ok request => execute (request.program :: request.config.toList) request.perform
  | _ => explain .misuse
