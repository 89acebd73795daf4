import TimedCommands.Schedule.Trace

/-!
# The scheduler

The scheduler is polled with simulation times. At each it handles the directives that
are due, in firing order: those of that very time fire, those of an earlier one have
missed their step. Then every sequence, in the order in which they were started,
handles its repetitions that are due in the same way. Nothing is handled twice, and a
failure has no influence on anything else.

A run polls one time after the other and stops once nothing is left to do.
-/

namespace TimedCommands

/-- A scheduler: the command types, the directives that are still to fire, in firing
order, and what was built so far. -/
structure Scheduler where
  arity : ArityLookup
  pending : List Directive
  state : RunState

namespace Scheduler

/-- A scheduler for directives, which it brings into firing order. -/
def create (arity : ArityLookup) (directives : List Directive) : Scheduler where
  arity
  pending := firingOrder directives
  state := RunState.empty

/-- The log record of a new scheduler. -/
def creationRecord (scheduler : Scheduler) : LogRecord :=
  ⟨.info, "scheduler created", [("directives", toString scheduler.pending.length)]⟩

/-- Whether every directive was handled and every sequence is done. -/
def isFinished (scheduler : Scheduler) : Bool :=
  scheduler.pending.isEmpty && scheduler.state.sequences.all ScheduledSequence.isDone

/-- The earliest time at which something is still to be handled. -/
def nextEventTime? (scheduler : Scheduler) : Option Time :=
  let directives := (scheduler.pending.head?.map (·.time)).toList
  let sequences := scheduler.state.sequences.filterMap ScheduledSequence.nextDue?
  (directives ++ sequences).min?

/-- Handles a directive that is due at `now`. -/
def handleDirective (arity : ArityLookup) (now : Time) (state : RunState) (directive : Directive) :
    RunState × DirectiveOutcome :=
  if directive.time < now then (state, .missed)
  else match state.fire arity directive with
    | .ok (changed, effects) => (changed, .fired effects)
    | .error fault => (state, .failed fault)

/-- Handles directives that are due at `now`, in order. -/
def handleDirectives (arity : ArityLookup) (now : Time) (state : RunState) :
    List Directive → RunState × List DirectiveTrace
  | [] => (state, [])
  | directive :: rest =>
    let (changed, outcome) := handleDirective arity now state directive
    let (final, traces) := handleDirectives arity now changed rest
    (final, ⟨directive, outcome⟩ :: traces)

/-- What becomes of a repetition that is due at `now`. -/
def handleRepetition (registry : Registry) (now : Time) (sequence : ScheduledSequence)
    (iteration : Nat) : RepetitionOutcome :=
  let due := sequence.slotTime iteration
  if due < now then .missed due
  else
    match (registry.get sequence.group).bind fun group => group.resolve iteration with
    | .ok commands => .ran commands
    | .error fault => .failed fault

/-- The traces of the repetitions of a sequence that are due at `now`. -/
def handleSequence (registry : Registry) (now : Time) (sequence : ScheduledSequence) :
    List RepetitionTrace :=
  (sequence.dueIterations now).map fun iteration =>
    ⟨sequence, iteration, handleRepetition registry now sequence iteration⟩

/-- Handles everything that is due at `now`. -/
def step (scheduler : Scheduler) (now : Time) : Scheduler × StepTrace :=
  let due := scheduler.pending.takeWhile fun directive => directive.time ≤ now
  let later := scheduler.pending.dropWhile fun directive => directive.time ≤ now
  let (fired, directives) := handleDirectives scheduler.arity now scheduler.state due
  let repetitions := fired.sequences.flatMap (handleSequence fired.registry now)
  let sequences := fired.sequences.map fun sequence => sequence.advanceTo now
  ({ scheduler with pending := later, state := { fired with sequences } },
    ⟨now, directives, repetitions⟩)

/-- Polls at most `remaining` times from `now` on, until the scheduler is finished. The
traces of the steps taken are collected in reverse. -/
def runFrom : (remaining : Nat) → (now : Time) → Scheduler → List StepTrace →
    Scheduler × List StepTrace
  | 0, _, scheduler, taken => (scheduler, taken)
  | remaining + 1, now, scheduler, taken =>
    let (next, trace) := scheduler.step now
    if next.isFinished then (next, trace :: taken)
    else runFrom remaining (now + 1) next (trace :: taken)

/-- A run: where the scheduler stands afterwards, and the traces of its steps in order. -/
structure Run where
  scheduler : Scheduler
  steps : List StepTrace

/-- Polls every time of a window, both ends included, until the scheduler is finished. -/
def run (scheduler : Scheduler) (start stop : Time) : Run :=
  let (final, taken) := scheduler.runFrom (stop.toNat + 1 - start.toNat) start []
  ⟨final, taken.reverse⟩

namespace Run

/-- The commands that the run hands over, in order. -/
def calls (run : Run) : List Call := run.steps.flatMap StepTrace.calls

/-- The report of a run of which `declined` commands did not run. -/
def report (run : Run) (declined : Nat) : Report :=
  { run.steps.foldl (fun report trace => report.add (trace.report 0)) Report.zero with declined }

/-- The record of the time at which the scheduler was finished, if it was. -/
def exhaustion (run : Run) : List LogRecord :=
  match run.steps.getLast? with
  | some last =>
    if run.scheduler.isFinished then
      [⟨.debug, "schedule exhausted", [("time", toString last.time.toNat)]⟩]
    else []
  | none => []

/-- The record that closes a run. -/
def completion (run : Run) : LogRecord :=
  let report := run.report 0
  ⟨.info, "run complete",
    [("steps", toString run.steps.length), ("dispatched", toString report.dispatched),
     ("failures", toString report.failures.length)]⟩

/-- The journal of the run. -/
def journal (run : Run) : List JournalEntry :=
  run.steps.flatMap StepTrace.journal
    ++ (run.exhaustion ++ [run.completion]).map JournalEntry.note

end Run

end Scheduler

end TimedCommands
