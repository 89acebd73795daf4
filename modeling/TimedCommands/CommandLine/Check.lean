import TimedCommands.CommandLine.Outcome
import TimedCommands.Session

/-!
# The check command

Reads and validates a program without running it, and lists what became of each of its
directives. A program passes if everything in it could be read and was accepted.
-/

namespace TimedCommands.CommandLine

/-- What is to be checked. -/
structure CheckRequest where
  program : String
  config : Option String
  deriving Repr, DecidableEq

namespace CheckRequest

/-- The options of the command. -/
def rules : List OptionRule := [⟨"config", isPath⟩]

/-- The request that arguments make. -/
def ofArguments (arguments : List String) : Except Refusal CheckRequest := do
  let given ← Arguments.read rules arguments
  return ⟨← given.operand, given.option? "config"⟩

/-- The plan that a request is about, or why there is none. -/
def plan (request : CheckRequest) (files : Files) : Except String Plan := do
  if !files.isFile request.program then throw s!"'{request.program}' is not a file"
  let settings ← readSettings files request.config
  let source ← readSource files request.program
  (Plan.read settings request.program source).mapError ProgramError.message

/-- The listing of a plan: what was accepted, what could not be read, what was rejected, and
how many there were of each. -/
def listing (plan : Plan) : List LogRecord :=
  let accepted := plan.validation.accepted
  let rejected := plan.validation.rejected
  let unreadable := plan.file.errors
  accepted.map (fun directive => .plain .info s!"  ok  {directive.line}")
    ++ unreadable.map (LogRecord.plain .error)
    ++ rejected.map (fun rejection => .plain .warning
      s!"  rejected  {rejection.directive.line}: {rejection.reason.message}")
    ++ [.plain .info (s!"{accepted.length} accepted, {rejected.length} rejected, "
      ++ s!"{unreadable.length} unreadable")]

/-- Whether everything could be read and was accepted. -/
def passes (plan : Plan) : Bool := plan.file.errors.isEmpty && plan.validation.rejected.isEmpty

/-- Carries out a request. -/
def perform (request : CheckRequest) (files : Files) : Outcome :=
  match request.plan files with
  | .error message => .failed message
  | .ok plan => ⟨if passes plan then 0 else 1, listing plan, none⟩

end CheckRequest

/-- The check command. -/
def check (files : Files) (arguments : List String) : Outcome :=
  match CheckRequest.ofArguments arguments with
  | .error refusal => .refused refusal
  | .ok request => request.perform files

end TimedCommands.CommandLine
