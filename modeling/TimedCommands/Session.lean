import TimedCommands.Dispatch.LineOutput
import TimedCommands.ProgramFile
import TimedCommands.Schedule.Scheduler
import TimedCommands.Settings
import TimedCommands.Validation

/-!
# Sessions

From a file to what was dispatched: a plan is a program that was read and validated
under settings, and a session is a run of its accepted directives whose calls were
written as lines. The log of a session lists what was logged on the whole way, in
order.
-/

namespace TimedCommands

/-- A program that was read and validated. -/
structure Plan where
  file : ProgramFile
  validation : Validation

namespace Plan

/-- What validation under settings starts from. -/
def context (settings : Settings) : ValidationContext :=
  .fresh settings.commandTypes.arity settings.enabled settings.legacySequenceValidation

/-- Reads and validates a program. -/
def read (settings : Settings) (name source : String) : Except ProgramError Plan := do
  let file ← ProgramFile.read settings.commandTypes.arity name source
  return ⟨file, Validation.run (context settings) file.directives⟩

/-- What reading and validating logged. -/
def log (plan : Plan) : List LogRecord := plan.file.log ++ plan.validation.records

/-- The scheduler of the accepted directives. -/
def scheduler (plan : Plan) : Scheduler :=
  Scheduler.create plan.validation.context.arity plan.validation.accepted

end Plan

/-- A plan that was run, and what came of its calls. -/
structure Session where
  plan : Plan
  run : Scheduler.Run
  delivery : Delivery LineOutput

namespace Session

/-- Runs a plan over a window, writing calls to a sink, if there is one. -/
def perform (plan : Plan) (window : RunWindow) (sink : Option LineSink) : Session :=
  let run := plan.scheduler.run window.start window.stop
  ⟨plan, run, LineOutput.dispatcher.deliver (LineOutput.begin sink) run.journal⟩

/-- The report of the run. -/
def report (session : Session) : Report := session.run.report session.delivery.declined

/-- What the calls left behind. -/
def output (session : Session) : LineOutput := session.delivery.state

/-- Everything that was logged. -/
def log (session : Session) : List LogRecord :=
  session.plan.log ++ session.plan.scheduler.creationRecord :: session.delivery.log.toList

end Session

end TimedCommands
