import TimedCommands.CommandLine.Outcome
import TimedCommands.Session

/-!
# The run command

Runs the accepted directives of a program over a window and sums up what happened. The
window is that of the settings unless the arguments say otherwise, and calls are
written to a file if one is named. That file is created before the window is checked.
-/

namespace TimedCommands.CommandLine

/-- What is to be run. -/
structure RunRequest where
  program : String
  config : Option String
  start : Option Time
  stop : Option Time
  output : Option String
  deriving Repr, DecidableEq

namespace RunRequest

/-- The options of the command. -/
def rules : List OptionRule :=
  [⟨"config", isPath⟩, ⟨"start", fun value => (number? value).isSome⟩,
   ⟨"end", fun value => (number? value).isSome⟩, ⟨"output", isPath⟩]

/-- The request that arguments make. -/
def ofArguments (arguments : List String) : Except Refusal RunRequest := do
  let given ← Arguments.read rules arguments
  return {
    program := ← given.operand
    config := given.option? "config"
    start := (given.option? "start").bind number?
    stop := (given.option? "end").bind number?
    output := given.option? "output" }

/-- The settings and the plan that a request is about, or why there is no plan. -/
def plan (request : RunRequest) (files : Files) : Except String (Settings × Plan) := do
  let settings ← readSettings files request.config
  let source ← readSource files request.program
  let plan ← (Plan.read settings request.program source).mapError ProgramError.message
  return (settings, plan)

/-- The records of reading and validating. -/
def preparation (plan : Plan) : List LogRecord :=
  plan.file.errors.map (LogRecord.plain .warning)
    ++ [⟨.info, "program validated",
      [("accepted", toString plan.validation.accepted.length),
       ("rejected", toString plan.validation.rejected.length)]⟩]

/-- The record that a run left work behind. -/
def remainder (scheduler : Scheduler) : List LogRecord :=
  if scheduler.isFinished then []
  else
    let next := match scheduler.nextEventTime? with
      | some time => s!"Some({time.toNat})"
      | none => "None"
    [⟨.warning, "run window ended with work still scheduled", [("next", next)]⟩]

/-- The summary of a session. -/
def summary (session : Session) : List LogRecord :=
  let report := session.report
  [.plain .info "Run complete",
   .plain .info s!"  - Steps: {session.run.steps.length}",
   .plain .info s!"  - Directives fired: {report.fired}",
   .plain .info s!"  - Repetitions: {report.repetitions}",
   .plain .info s!"  - Commands dispatched: {report.dispatched}"]
    ++ (if 0 < report.missed then
      [.plain .warning s!"  - Directives outside the run window: {report.missed}"] else [])
    ++ report.failures.map (fun failure => .plain .warning
      s!"  - {failure.directive}: {failure.fault.message}")
    ++ remainder session.run.scheduler

/-- Runs a plan over a window. -/
def performPlan (plan : Plan) (window : RunWindow) (output : Option String) : Outcome :=
  let session := Session.perform plan window (output.map fun _ => LineSink.unlimited)
  ⟨0, summary session, output.map fun path => ⟨path, session.output.text?.getD ""⟩⟩

/-- Runs a plan over a window, which must not end before it starts. -/
def performWindow (plan : Plan) (window : RunWindow) (output : Option String) : Outcome :=
  if window.stop < window.start then
    { Outcome.failed s!"End step {window.stop.toNat} is before start step {window.start.toNat}" with
      written := output.map fun path => ⟨path, ""⟩ }
  else performPlan plan window output

/-- Carries out a request. -/
def perform (request : RunRequest) (files : Files) : Outcome :=
  match request.plan files with
  | .error message => .failed message
  | .ok (settings, plan) =>
    let window : RunWindow :=
      ⟨request.start.getD settings.run.start, request.stop.getD settings.run.stop⟩
    let outcome := match request.output with
      | none => performWindow plan window none
      | some path =>
        match files.create path with
        | .error error => .failed s!"Failed to create '{path}': {error.message}"
        | .ok () => (performWindow plan window (some path)).after
            [.plain .info s!"Writing dispatches to {path}"]
    outcome.after (preparation plan)

end RunRequest

/-- The run command. -/
def run (files : Files) (arguments : List String) : Outcome :=
  match RunRequest.ofArguments arguments with
  | .error refusal => .refused refusal
  | .ok request => request.perform files

end TimedCommands.CommandLine
