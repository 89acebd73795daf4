import TimedCommands.Directive.Line
import TimedCommands.Dispatch.Call
import TimedCommands.Group.Resolve
import TimedCommands.Schedule.Firing

/-!
# Traces of steps

A step leaves a trace: what became of each directive that was due, and of each
repetition. Everything else that is said about a step is read off its trace: the
commands it hands over, the report with its counts and failures, and the journal with
the log records in between. Report and log can therefore not disagree about what
happened.
-/

namespace TimedCommands

/-- What became of a directive that was due. -/
inductive DirectiveOutcome where
  | missed
  | failed (fault : Fault)
  | fired (effects : List Effect)
  deriving Repr, DecidableEq

/-- A directive that was due, and what became of it. -/
structure DirectiveTrace where
  directive : Directive
  outcome : DirectiveOutcome
  deriving Repr, DecidableEq

/-- What became of a repetition that was due. -/
inductive RepetitionOutcome where
  | missed (due : Time)
  | failed (fault : Fault)
  | ran (commands : List ResolvedCommand)
  deriving Repr, DecidableEq

/-- A repetition that was due, the sequence it belongs to, and what became of it. -/
structure RepetitionTrace where
  sequence : ScheduledSequence
  iteration : Nat
  outcome : RepetitionOutcome
  deriving Repr, DecidableEq

/-- What happened in a step: directives first, in firing order, then repetitions, sequence
by sequence. -/
structure StepTrace where
  time : Time
  directives : List DirectiveTrace
  repetitions : List RepetitionTrace
  deriving Repr, DecidableEq

/-- A directive or repetition that failed, as it is reported. -/
structure Failure where
  directive : String
  fault : Fault
  deriving Repr, DecidableEq

/-- The counts and failures of a step or of a whole run. -/
structure Report where
  fired : Nat
  missed : Nat
  repetitions : Nat
  dispatched : Nat
  declined : Nat
  failures : List Failure
  deriving Repr, DecidableEq

namespace DirectiveTrace

/-- Whether the directive missed its step. -/
def isMissed (trace : DirectiveTrace) : Bool :=
  match trace.outcome with
  | .missed => true
  | _ => false

/-- The failure, if firing failed. -/
def failure? (trace : DirectiveTrace) : Option Failure :=
  match trace.outcome with
  | .failed fault => some ⟨trace.directive.line, fault⟩
  | _ => none

/-- The log records: one, or one for each effect. -/
def records (trace : DirectiveTrace) : List LogRecord :=
  match trace.outcome with
  | .missed => [⟨.warning, "directive missed its step", [("directive", trace.directive.line)]⟩]
  | .failed fault =>
    [⟨.warning, "directive failed",
      [("directive", trace.directive.line), ("error", fault.message)]⟩]
  | .fired effects => effects.map (Effect.record trace.directive)

end DirectiveTrace

namespace RepetitionTrace

/-- Whether the repetition missed its step. -/
def isMissed (trace : RepetitionTrace) : Bool :=
  match trace.outcome with
  | .missed _ => true
  | _ => false

/-- The commands that the repetition hands over. -/
def commands (trace : RepetitionTrace) : List ResolvedCommand :=
  match trace.outcome with
  | .ran commands => commands
  | _ => []

/-- How a failed repetition is named in a report. -/
def title (trace : RepetitionTrace) : String :=
  s!"execute_sequence {trace.sequence.start.toNat} {trace.sequence.group} repetition {trace.iteration}"

/-- The failure, if resolving failed. -/
def failure? (trace : RepetitionTrace) : Option Failure :=
  match trace.outcome with
  | .failed fault => some ⟨trace.title, fault⟩
  | _ => none

/-- The call that a command of the repetition makes at a time. -/
def callOf (now : Time) (command : ResolvedCommand) : Call :=
  ⟨now, command.typeName, command.arguments⟩

/-- The journal of one command: its announcement and its call. -/
def commandJournal (trace : RepetitionTrace) (now : Time) (command : ResolvedCommand) :
    List JournalEntry :=
  let group := ("group", trace.sequence.group)
  let index := ("command", command.index.text)
  let time := ("time", toString now.toNat)
  [.note ⟨.debug, "dispatching command",
      [group, index, ("command_type", command.typeName), ("iteration", toString trace.iteration), time]⟩,
    .call (callOf now command) ⟨.warning, "command did not run", [group, index, time]⟩]

/-- The record that the repetition was the last of its sequence, if it was. -/
def completion (trace : RepetitionTrace) : List LogRecord :=
  if trace.iteration + 1 = trace.sequence.total then
    [⟨.info, "sequence complete",
      [("group", trace.sequence.group), ("total", toString trace.sequence.total)]⟩]
  else []

/-- The journal of a repetition at a time. -/
def journal (trace : RepetitionTrace) (now : Time) : List JournalEntry :=
  let group := ("group", trace.sequence.group)
  let iteration := ("iteration", toString trace.iteration)
  let handled : List JournalEntry := match trace.outcome with
    | .missed due =>
      [.note ⟨.warning, "repetition missed its step",
        [group, iteration, ("due", toString due.toNat)]⟩]
    | .failed fault =>
      [.note ⟨.warning, "directive failed", [group, iteration, ("error", fault.message)]⟩]
    | .ran commands => commands.flatMap (trace.commandJournal now)
  handled ++ trace.completion.map JournalEntry.note

end RepetitionTrace

namespace Report

/-- Nothing happened. -/
def zero : Report := ⟨0, 0, 0, 0, 0, []⟩

/-- What happened in two parts together. -/
def add (left right : Report) : Report where
  fired := left.fired + right.fired
  missed := left.missed + right.missed
  repetitions := left.repetitions + right.repetitions
  dispatched := left.dispatched + right.dispatched
  declined := left.declined + right.declined
  failures := left.failures ++ right.failures

end Report

namespace StepTrace

/-- The commands that the step hands over, in order. -/
def calls (trace : StepTrace) : List Call :=
  trace.repetitions.flatMap fun repetition =>
    repetition.commands.map (RepetitionTrace.callOf trace.time)

/-- The report of a step of which `declined` commands did not run. -/
def report (trace : StepTrace) (declined : Nat) : Report where
  fired := (trace.directives.filter fun directive => !directive.isMissed).length
  missed := (trace.directives.filter DirectiveTrace.isMissed).length
  repetitions := (trace.repetitions.filter fun repetition => !repetition.isMissed).length
  dispatched := trace.calls.length
  declined
  failures :=
    trace.directives.filterMap DirectiveTrace.failure?
      ++ trace.repetitions.filterMap RepetitionTrace.failure?

/-- The journal of the step. -/
def journal (trace : StepTrace) : List JournalEntry :=
  trace.directives.flatMap (fun directive => directive.records.map JournalEntry.note)
    ++ trace.repetitions.flatMap fun repetition => repetition.journal trace.time

end StepTrace

end TimedCommands
