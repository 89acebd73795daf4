import TimedCommands.Proofs.Dispatch.Noting
import TimedCommands.Proofs.Schedule.Machine
import TimedCommands.Proofs.Schedule.Reachable
import TimedCommands.Proofs.Schedule.Splitting

/-!
# Calling, counting and logging within the loops

A scheduler says what it hands over, and `Dispatcher.deliver` hands it over when the step or the
run is told; its report and its log are both read off one trace, so they cannot tell different
stories. An engine that calls its dispatcher in the middle of its work could let an answer keep it
from what comes next, and one that counts in one statement and logs in the next has to do both on
every path through its loops. `Engine` is such an engine: it looks at one directive and one
repetition after the other, and hands over each command on the spot. What it has at hand meanwhile
is its `Account`.

It comes to what the scheduler and a delivery of its journal come to, loop by loop: `Account.enact`
is what a trace means to an account, and every loop enacts the trace of its part of the step
(`Engine.step_eq`, `Engine.drive_eq`). So a dispatcher has no influence on what it is handed
(`dispatcher_has_no_influence`), and the report and the log of a step agree
(`reports_agree_with_log`).

What a dispatcher logs itself is left out of the log of an engine: `Dispatcher.muted` gives the same
answers without a word, and its log is what the engine logs.
-/

namespace TimedCommands

variable {σ : Type}

/-- What an engine has at hand in a step: the state of its dispatcher, what it has counted, and what
it has logged. -/
structure Account (σ : Type) where
  client : σ
  report : Report
  log : Array LogRecord

namespace Account

/-- Counts something. -/
def count (account : Account σ) (part : Report) : Account σ :=
  { account with report := account.report.add part }

/-- Logs a record. -/
def note (account : Account σ) (record : LogRecord) : Account σ :=
  { account with log := account.log.push record }

/-- Announces a command and hands it over. If it does not run, this is logged and counted. -/
def handOver (dispatcher : Dispatcher σ) (now : Time) (sequence : ScheduledSequence)
    (iteration : Nat) (account : Account σ) (command : ResolvedCommand) : Account σ :=
  let group := ("group", sequence.group)
  let index := ("command", command.index.text)
  let time := ("time", toString now.toNat)
  let announced := account.note ⟨.debug, "dispatching command",
    [group, index, ("command_type", command.typeName), ("iteration", toString iteration), time]⟩
  let handed := announced.count { Report.zero with dispatched := 1 }
  let reply := dispatcher.execute ⟨now, command.typeName, command.arguments⟩ handed.client
  let answered := { handed with client := reply.next }
  if reply.ran then answered
  else
    (answered.note ⟨.warning, "command did not run", [group, index, time]⟩).count
      { Report.zero with declined := 1 }

/-- Says that a sequence is complete, if it is done. -/
def conclude (account : Account σ) (sequence : ScheduledSequence) : Account σ :=
  if sequence.isDone then
    account.note ⟨.info, "sequence complete",
      [("group", sequence.group), ("total", toString sequence.total)]⟩
  else account

end Account

/-- An engine between its steps: a scheduler, and the state of the dispatcher that is called. -/
structure Engine (σ : Type) where
  scheduler : Scheduler
  client : σ

/-- The summary of one or more steps: their times, and what was counted in them. -/
structure Summary where
  times : List Time
  report : Report
  deriving Repr, DecidableEq

/-- One more step. -/
def Summary.absorb (summary : Summary) (now : Time) (report : Report) : Summary :=
  ⟨summary.times ++ [now], summary.report.add report⟩

namespace Engine

/-- Takes pending directives one by one, up to the first that is not due. Answers with those that
are left and what has been built. -/
def fireDue (arity : ArityLookup) (now : Time) (state : RunState) (account : Account σ) :
    List Directive → List Directive × RunState × Account σ
  | [] => ([], state, account)
  | directive :: rest =>
    if now < directive.time then (directive :: rest, state, account)
    else if directive.time < now then
      let warned := account.note
        ⟨.warning, "directive missed its step", [("directive", directive.line)]⟩
      fireDue arity now state (warned.count { Report.zero with missed := 1 }) rest
    else
      let begun := account.count { Report.zero with fired := 1 }
      match (Noting.fire arity directive).run ⟨state, begun.log⟩ with
      | .ok _ bench => fireDue arity now bench.state { begun with log := bench.log } rest
      | .error fault bench =>
        let left := { begun with log := bench.log }
        let warned := left.note ⟨.warning, "directive failed",
          [("directive", directive.line), ("error", fault.message)]⟩
        let failure : Failure := ⟨directive.line, fault⟩
        fireDue arity now bench.state
          (warned.count { Report.zero with failures := [failure] }) rest

/-- Handles one repetition that is due. -/
def repeatOnce (dispatcher : Dispatcher σ) (registry : Registry) (now : Time)
    (sequence : ScheduledSequence) (iteration : Nat) (account : Account σ) : Account σ :=
  let group := ("group", sequence.group)
  let number := ("iteration", toString iteration)
  let due := sequence.slotTime iteration
  if due < now then
    account.note ⟨.warning, "repetition missed its step",
      [group, number, ("due", toString due.toNat)]⟩
  else
    let begun := account.count { Report.zero with repetitions := 1 }
    match (registry.get sequence.group).bind fun group => group.resolve iteration with
    | .ok commands => commands.foldl (Account.handOver dispatcher now sequence iteration) begun
    | .error fault =>
      let warned := begun.note ⟨.warning, "directive failed",
        [group, number, ("error", fault.message)]⟩
      let failure : Failure := ⟨RepetitionTrace.title ⟨sequence, iteration, .failed fault⟩, fault⟩
      warned.count { Report.zero with failures := [failure] }

/-- Handles the next repetition of a sequence, and puts it behind. -/
def handleOnce (dispatcher : Dispatcher σ) (registry : Registry) (now : Time)
    (sequence : ScheduledSequence) (iteration : Nat) (account : Account σ) : Account σ :=
  (repeatOnce dispatcher registry now sequence iteration account).conclude
    { sequence with completed := iteration + 1 }

/-- Handles the repetitions of a sequence one by one, up to the first that is not due. -/
def catchUp (dispatcher : Dispatcher σ) (registry : Registry) (now : Time)
    (sequence : ScheduledSequence) (account : Account σ) : ScheduledSequence × Account σ :=
  match _isNext : sequence.nextIteration? with
  | none => (sequence, account)
  | some iteration =>
    if now < sequence.slotTime iteration then (sequence, account)
    else
      catchUp dispatcher registry now { sequence with completed := iteration + 1 }
        (handleOnce dispatcher registry now sequence iteration account)
termination_by sequence.total - sequence.completed
decreasing_by
  obtain ⟨left, rfl⟩ := ScheduledSequence.nextIteration?_eq_some_iff.mp _isNext
  omega

/-- Lets the sequences catch up, one after the other. -/
def catchUpAll (dispatcher : Dispatcher σ) (registry : Registry) (now : Time) :
    List ScheduledSequence → Account σ → List ScheduledSequence × Account σ
  | [], account => ([], account)
  | sequence :: rest, account =>
    let (first, told) := catchUp dispatcher registry now sequence account
    let (others, final) := catchUpAll dispatcher registry now rest told
    (first :: others, final)

/-- Handles everything that is due at `now`. Answers with the report and the log of the step. -/
def step (dispatcher : Dispatcher σ) (engine : Engine σ) (now : Time) :
    Engine σ × Report × Array LogRecord :=
  let scheduler := engine.scheduler
  let (later, fired, begun) := fireDue scheduler.arity now scheduler.state
    ⟨engine.client, Report.zero, #[]⟩ scheduler.pending
  let (sequences, final) := catchUpAll dispatcher fired.registry now fired.sequences begun
  (⟨{ scheduler with pending := later, state := { fired with sequences } }, final.client⟩,
    final.report, final.log)

/-- The reports and logs of the steps at the times of a list. -/
def poll (dispatcher : Dispatcher σ) (engine : Engine σ) :
    List Time → List (Report × Array LogRecord)
  | [] => []
  | now :: later =>
    let (next, told) := engine.step dispatcher now
    told :: next.poll dispatcher later

/-- Steps through the times of a list, until nothing is left to do. Only the counts are summed up;
the logs of steps are what `poll` is for. -/
def runOver (dispatcher : Dispatcher σ) (engine : Engine σ) (summary : Summary) :
    List Time → Engine σ × Summary
  | [] => (engine, summary)
  | now :: later =>
    let (next, report, _) := engine.step dispatcher now
    let absorbed := summary.absorb now report
    if next.scheduler.isFinished then (next, absorbed)
    else next.runOver dispatcher absorbed later

/-- Drives an engine in one of the ways in which a scheduler is polled. -/
def drive (dispatcher : Dispatcher σ) (engine : Engine σ) : Polling → Engine σ × Summary
  | .step now =>
    let (next, report, _) := engine.step dispatcher now
    (next, ⟨[now], report⟩)
  | .run start stop => engine.runOver dispatcher ⟨[], Report.zero⟩ (window start stop)

/-- The engine after being driven in several ways, one after the other. -/
def driveAll (dispatcher : Dispatcher σ) (engine : Engine σ) (pollings : List Polling) : Engine σ :=
  pollings.foldl (fun engine polling => (engine.drive dispatcher polling).1) engine

end Engine

namespace StepTrace

variable {now : Time}

/-- Directives that are handled one after the other add up in the report. -/
theorem report_directives_append (first second : List DirectiveTrace) :
    StepTrace.report ⟨now, first ++ second, []⟩ 0 =
      (StepTrace.report ⟨now, first, []⟩ 0).add (StepTrace.report ⟨now, second, []⟩ 0) := by
  simp [report, calls, Report.add]

/-- Repetitions that are handled one after the other add up in the report. -/
theorem report_repetitions_append (directives : List DirectiveTrace)
    (first second : List RepetitionTrace) :
    StepTrace.report ⟨now, directives, first ++ second⟩ 0 =
      (StepTrace.report ⟨now, directives, first⟩ 0).add (StepTrace.report ⟨now, [], second⟩ 0) := by
  simp [report, calls, Report.add]

end StepTrace

namespace Account

/-! What a journal and a report mean to an account. -/

variable {dispatcher : Dispatcher σ} {now : Time}

/-- Delivers a journal, in the log as well, and counts what a report counts. Which commands did not
run is told by the delivery. -/
def tell (dispatcher : Dispatcher σ) (account : Account σ) (journal : List JournalEntry)
    (part : Report) : Account σ :=
  let delivery := journal.foldl dispatcher.muted.deliverEntry
    ⟨account.client, account.report.declined, account.log⟩
  ⟨delivery.state, { account.report.add part with declined := delivery.declined }, delivery.log⟩

/-- Tells a step. -/
def enact (dispatcher : Dispatcher σ) (account : Account σ) (trace : StepTrace) : Account σ :=
  account.tell dispatcher trace.journal (trace.report 0)

/-- What is told in two parts is told as a whole. -/
theorem tell_tell (dispatcher : Dispatcher σ) (account : Account σ)
    (first second : List JournalEntry) (part further : Report) :
    (account.tell dispatcher first part).tell dispatcher second further =
      account.tell dispatcher (first ++ second) (part.add further) := by
  simp [tell, Report.add, Nat.add_assoc]

/-- Records that are told are logged, and the dispatcher is not asked. -/
theorem tell_notes (dispatcher : Dispatcher σ) (account : Account σ) (records : List LogRecord)
    (part : Report) :
    account.tell dispatcher (records.map JournalEntry.note) part =
      ⟨account.client,
        { account.report.add part with declined := account.report.declined },
        records.foldl Array.push account.log⟩ := by
  rw [tell, Dispatcher.deliver_notes]

/-- A step in which nothing happens leaves an account as it is. -/
theorem enact_nil (account : Account σ) :
    account.enact dispatcher ⟨now, [], []⟩ = account := by
  simp [enact, tell, StepTrace.journal, StepTrace.calls, StepTrace.report, Report.add]

/-- Directives are enacted one after the other. -/
theorem enact_directives (account : Account σ) (first second : List DirectiveTrace) :
    account.enact dispatcher ⟨now, first ++ second, []⟩ =
      (account.enact dispatcher ⟨now, first, []⟩).enact dispatcher ⟨now, second, []⟩ := by
  rw [enact, enact, enact, tell_tell, StepTrace.report_directives_append]
  simp [StepTrace.journal]

/-- Repetitions are enacted behind the directives, one after the other. -/
theorem enact_repetitions (account : Account σ) (directives : List DirectiveTrace)
    (first second : List RepetitionTrace) :
    account.enact dispatcher ⟨now, directives, first ++ second⟩ =
      (account.enact dispatcher ⟨now, directives, first⟩).enact dispatcher
        ⟨now, [], second⟩ := by
  rw [enact, enact, enact, tell_tell, StepTrace.report_repetitions_append]
  simp [StepTrace.journal]

/-- A directive leaves its records and is counted. -/
theorem enact_directive (account : Account σ) (trace : DirectiveTrace) :
    account.enact dispatcher ⟨now, [trace], []⟩ =
      ⟨account.client, account.report.add (StepTrace.report ⟨now, [trace], []⟩ 0),
        trace.records.foldl Array.push account.log⟩ := by
  have journal : StepTrace.journal ⟨now, [trace], []⟩ = trace.records.map JournalEntry.note := by
    simp [StepTrace.journal]
  rw [enact, journal, tell_notes]
  rfl

/-- A repetition is told by its journal. -/
theorem enact_repetition (account : Account σ) (trace : RepetitionTrace) :
    account.enact dispatcher ⟨now, [], [trace]⟩ =
      account.tell dispatcher (trace.journal now)
        ⟨0, 0, if trace.isMissed then 0 else 1, trace.commands.length, 0,
          trace.failure?.toList⟩ := by
  have journal : StepTrace.journal ⟨now, [], [trace]⟩ = trace.journal now := by
    simp [StepTrace.journal]
  have report : StepTrace.report ⟨now, [], [trace]⟩ 0 =
      ⟨0, 0, if trace.isMissed then 0 else 1, trace.commands.length, 0,
        trace.failure?.toList⟩ := by
    cases missed : trace.isMissed <;> cases failure : trace.failure? <;>
      simp [StepTrace.report, StepTrace.calls, missed, failure]
  rw [enact, journal, report]

/-- Commands that are announced and handed over one by one are told one by one. -/
theorem foldl_handOver (dispatcher : Dispatcher σ) (now : Time) (trace : RepetitionTrace)
    (account : Account σ) (commands : List ResolvedCommand) :
    commands.foldl (handOver dispatcher now trace.sequence trace.iteration) account =
      account.tell dispatcher (commands.flatMap (trace.commandJournal now))
        { Report.zero with dispatched := commands.length } := by
  have single (account : Account σ) (command : ResolvedCommand) :
      handOver dispatcher now trace.sequence trace.iteration account command =
        account.tell dispatcher (trace.commandJournal now command)
          { Report.zero with dispatched := 1 } := by
    by_cases ran : (dispatcher.execute ⟨now, command.typeName, command.arguments⟩
        account.client).ran <;>
      simp [handOver, tell, note, count, RepetitionTrace.commandJournal, RepetitionTrace.callOf,
        Dispatcher.deliverEntry, Dispatcher.muted, Report.add, Report.zero, ran]
  induction commands generalizing account with
  | nil => simp [tell, Report.add, Report.zero]
  | cons command rest ih =>
    rw [List.foldl_cons, ih, single, tell_tell, List.flatMap_cons]
    simp [Report.add, Report.zero, Nat.add_comm 1]

/-- An empty account that enacts a step holds what a delivery of its journal comes to. -/
theorem enact_begun (dispatcher : Dispatcher σ) (client : σ) (trace : StepTrace) :
    Account.enact dispatcher ⟨client, Report.zero, #[]⟩ trace =
      let delivery := dispatcher.muted.deliver client trace.journal
      ⟨delivery.state, trace.report delivery.declined, delivery.log⟩ := by
  rw [enact, tell, Report.zero_add]
  rfl

end Account

namespace Engine

/-- Taking the pending directives enacts the trace of those that are due. -/
theorem fireDue_eq (dispatcher : Dispatcher σ) (arity : ArityLookup) (now : Time) (state : RunState)
    (account : Account σ) (pending : List Directive) :
    fireDue arity now state account pending =
      let handled := Scheduler.handleDirectives arity now state (pending.takeWhile (·.time ≤ now))
      (pending.dropWhile (·.time ≤ now), handled.1,
        account.enact dispatcher ⟨now, handled.2, []⟩) := by
  induction pending generalizing state account with
  | nil => simp [fireDue, Scheduler.handleDirectives, Account.enact_nil]
  | cons directive rest ih =>
    rw [fireDue]
    by_cases ahead : now < directive.time
    · have notDue : ¬ directive.time ≤ now := UInt64.not_le.mpr ahead
      simp [ahead, notDue, Scheduler.handleDirectives, Account.enact_nil]
    · have due : directive.time ≤ now := UInt64.not_lt.mp ahead
      rw [if_neg ahead, List.takeWhile_cons_of_pos (by simpa using due),
        List.dropWhile_cons_of_pos (by simpa using due)]
      simp only [Scheduler.handleDirectives, Scheduler.handleDirective]
      have first (outcome : DirectiveOutcome) (traces : List DirectiveTrace) :
          account.enact dispatcher ⟨now, ⟨directive, outcome⟩ :: traces, []⟩ =
            (account.enact dispatcher ⟨now, [⟨directive, outcome⟩], []⟩).enact dispatcher
              ⟨now, traces, []⟩ :=
        Account.enact_directives account [_] traces
      rw [first]
      by_cases missed : directive.time < now
      · rw [if_pos missed, if_pos missed, ih]
        rfl
      · rw [if_neg missed, if_neg missed, Noting.run_fire]
        cases state.fire arity directive with
        | ok result =>
          simp only [Noting.allOrNothing, ih, Account.enact_directive]
          rfl
        | error fault =>
          simp only [Noting.allOrNothing, ih, Account.enact_directive]
          simp [Account.note, Account.count, StepTrace.report, StepTrace.calls, Report.add, Report.zero,
            DirectiveTrace.isMissed, DirectiveTrace.failure?, DirectiveTrace.records]

/-- A repetition is handled, and if it was the last of its sequence, this is said behind it. -/
theorem repeatOnce_eq (dispatcher : Dispatcher σ) (registry : Registry) (now : Time)
    (sequence : ScheduledSequence) (iteration : Nat) (account : Account σ) :
    let trace : RepetitionTrace :=
      ⟨sequence, iteration, Scheduler.handleRepetition registry now sequence iteration⟩
    let handled := repeatOnce dispatcher registry now sequence iteration account
    account.enact dispatcher ⟨now, [], [trace]⟩ =
      { handled with log := trace.completion.foldl Array.push handled.log } := by
  intro trace handled
  have concluded (journal : List JournalEntry) (part : Report) :
      account.tell dispatcher (journal ++ trace.completion.map JournalEntry.note) part =
        let told := account.tell dispatcher journal part
        { told with log := trace.completion.foldl Array.push told.log } := by
    rw [← part.add_zero, ← Account.tell_tell, Account.tell_notes]
    simp
  rw [Account.enact_repetition, RepetitionTrace.journal, concluded]
  simp only [handled, repeatOnce, trace, Scheduler.handleRepetition]
  by_cases missed : sequence.slotTime iteration < now
  · simp only [if_pos missed]
    simp [Account.tell, Account.note, Dispatcher.deliverEntry, RepetitionTrace.isMissed, RepetitionTrace.commands,
      RepetitionTrace.failure?, Report.add, RepetitionTrace.completion]
  · simp only [if_neg missed]
    cases (registry.get sequence.group).bind fun group => group.resolve iteration with
    | error fault =>
      simp [Account.tell, Account.note, Account.count, Dispatcher.deliverEntry, RepetitionTrace.isMissed,
        RepetitionTrace.commands, RepetitionTrace.failure?, Report.add, Report.zero,
        RepetitionTrace.completion]
    | ok commands =>
      have handed := Account.foldl_handOver dispatcher now ⟨sequence, iteration, .ran commands⟩
        (account.count { Report.zero with repetitions := 1 }) commands
      simp only [handed]
      simp [Account.tell, Account.count, RepetitionTrace.isMissed, RepetitionTrace.commands,
        RepetitionTrace.failure?, Report.add, Report.zero, RepetitionTrace.completion]

/-- Handling one repetition enacts its trace. -/
theorem handleOnce_eq (dispatcher : Dispatcher σ) (registry : Registry) (now : Time)
    {sequence : ScheduledSequence} {iteration : Nat} (within : iteration < sequence.total)
    (account : Account σ) :
    handleOnce dispatcher registry now sequence iteration account =
      account.enact dispatcher ⟨now, [],
        [⟨sequence, iteration, Scheduler.handleRepetition registry now sequence iteration⟩]⟩ := by
  rw [repeatOnce_eq, handleOnce, Account.conclude, ScheduledSequence.isDone, RepetitionTrace.completion]
  by_cases last : iteration + 1 = sequence.total
  · have all : sequence.total ≤ iteration + 1 := by omega
    simp [last, Account.note]
  · have left : ¬ sequence.total ≤ iteration + 1 := by omega
    simp [last, left]

/-- The repetitions of a sequence are enacted one by one. -/
theorem enact_handleSequence (dispatcher : Dispatcher σ) (registry : Registry) (now : Time)
    (sequence : ScheduledSequence) (account : Account σ) :
    account.enact dispatcher ⟨now, [], Scheduler.handleSequence registry now sequence⟩ =
      (sequence.dueIterations now).foldl
        (fun account iteration =>
          handleOnce dispatcher registry now sequence iteration account) account := by
  have within : ∀ iteration ∈ sequence.dueIterations now, iteration < sequence.total :=
    fun iteration due => (ScheduledSequence.mem_dueIterations.mp due).2.1
  rw [Scheduler.handleSequence]
  generalize sequence.dueIterations now = due at within ⊢
  induction due generalizing account with
  | nil => exact account.enact_nil
  | cons iteration rest ih =>
    obtain ⟨first, others⟩ := List.forall_mem_cons.mp within
    rw [List.foldl_cons, ← ih _ others, handleOnce_eq dispatcher registry now first,
      ← Account.enact_repetitions]
    rfl

/-- Catching up enacts the trace of the repetitions that are due. -/
theorem catchUp_eq (dispatcher : Dispatcher σ) (registry : Registry) (now : Time)
    (sequence : ScheduledSequence) (account : Account σ) :
    catchUp dispatcher registry now sequence account =
      (sequence.advanceTo now,
        account.enact dispatcher ⟨now, [], Scheduler.handleSequence registry now sequence⟩) := by
  have rests {sequence : ScheduledSequence} (account : Account σ)
      (ahead : ∀ time ∈ sequence.nextDue?, now < time) :
      (sequence, account) = (sequence.advanceTo now,
        account.enact dispatcher
          ⟨now, [], Scheduler.handleSequence registry now sequence⟩) := by
    rw [enact_handleSequence, ScheduledSequence.advanceTo_of_ahead ahead,
      ScheduledSequence.dueIterations_of_ahead ahead, List.foldl_nil]
  fun_induction catchUp dispatcher registry now sequence account with
  | case1 sequence account noneLeft =>
    exact rests account (by simp [ScheduledSequence.nextDue?, noneLeft])
  | case2 sequence account iteration isNext ahead =>
    exact rests account (by simpa [ScheduledSequence.nextDue?, isNext] using ahead)
  | case3 sequence account iteration isNext notAhead ih =>
    obtain ⟨left, rfl⟩ := ScheduledSequence.nextIteration?_eq_some_iff.mp isNext
    have come := UInt64.not_lt.mp notAhead
    rw [ih, ScheduledSequence.advanceTo_of_due left come, enact_handleSequence,
      enact_handleSequence, ScheduledSequence.dueIterations_of_due left come, List.foldl_cons]
    -- How far a sequence has come makes no difference to a repetition.
    rfl

/-- When all sequences catch up, this enacts the traces of their repetitions, in order. -/
theorem catchUpAll_eq (dispatcher : Dispatcher σ) (registry : Registry) (now : Time)
    (sequences : List ScheduledSequence) (account : Account σ) :
    catchUpAll dispatcher registry now sequences account =
      (sequences.map fun sequence => sequence.advanceTo now,
        account.enact dispatcher
          ⟨now, [], sequences.flatMap (Scheduler.handleSequence registry now)⟩) := by
  induction sequences generalizing account with
  | nil => rw [catchUpAll, List.flatMap_nil, Account.enact_nil, List.map_nil]
  | cons sequence rest ih =>
    rw [catchUpAll, catchUp_eq, List.flatMap_cons, Account.enact_repetitions]
    simp only [ih, List.map_cons]

/-- A step that counts and logs as it goes comes to the report of its trace and to the log of its
journal, without what the dispatcher logs. -/
theorem step_eq (dispatcher : Dispatcher σ) (engine : Engine σ) (now : Time) :
    engine.step dispatcher now =
      let (next, trace) := engine.scheduler.step now
      let delivery := dispatcher.muted.deliver engine.client trace.journal
      (⟨next, delivery.state⟩, trace.report delivery.declined, delivery.log) := by
  obtain ⟨⟨arity, pending, state⟩, client⟩ := engine
  rcases handled : Scheduler.handleDirectives arity now state (pending.takeWhile (·.time ≤ now))
    with ⟨fired, directives⟩
  let begun : Account σ := ⟨client, Report.zero, #[]⟩
  let repetitions := fired.sequences.flatMap (Scheduler.handleSequence fired.registry now)
  have told : (begun.enact dispatcher ⟨now, directives, []⟩).enact dispatcher
      ⟨now, [], repetitions⟩ = begun.enact dispatcher ⟨now, directives, repetitions⟩ := by
    rw [← Account.enact_repetitions, List.nil_append]
  simp only [step, fireDue_eq dispatcher, catchUpAll_eq, Scheduler.step, handled]
  rw [told, Account.enact_begun]

/-- All that is logged in several steps is what comes of their journals. -/
theorem log_poll (dispatcher : Dispatcher σ) (engine : Engine σ) (times : List Time) :
    (engine.poll dispatcher times).flatMap (·.2.toList) =
      (dispatcher.muted.deliver engine.client
        ((engine.scheduler.poll times).steps.flatMap StepTrace.journal)).log.toList := by
  induction times generalizing engine with
  | nil => rfl
  | cons now later ih =>
    rw [poll, step_eq, Scheduler.poll_cons, List.flatMap_cons, List.flatMap_cons,
      Dispatcher.log_deliver_append]
    exact congrArg (_ ++ ·) (ih _)

/-- Stepping through times comes to the run of the scheduler over them, with its journals
delivered. -/
theorem runOver_eq (dispatcher : Dispatcher σ) (engine : Engine σ) (summary : Summary)
    (times : List Time) :
    engine.runOver dispatcher summary times =
      let run := engine.scheduler.runOver times
      let delivery := dispatcher.deliver engine.client (run.steps.flatMap StepTrace.journal)
      (⟨run.scheduler, delivery.state⟩,
        ⟨summary.times ++ run.steps.map (·.time),
          summary.report.add (run.report delivery.declined)⟩) := by
  induction times generalizing engine summary with
  | nil =>
    simp [runOver, Scheduler.runOver, Dispatcher.deliver, Scheduler.Run.report, Report.add,
      Report.zero]
  | cons now later ih =>
    obtain ⟨scheduler, client⟩ := engine
    rw [runOver, step_eq, Scheduler.runOver]
    rcases stepped : scheduler.step now with ⟨next, trace⟩
    have sameTime : trace.time = now := congrArg (·.2.time) stepped.symm
    -- The run ends with the step that leaves nothing to do; else the rest of it adds to the report.
    by_cases finished : next.isFinished
    · simp [finished, Scheduler.Run.report_singleton, Summary.absorb, sameTime]
    · let rest := next.runOver later
      let first := dispatcher.deliver client trace.journal
      let second := dispatcher.deliver first.state (rest.steps.flatMap StepTrace.journal)
      let whole := dispatcher.deliver client ((trace :: rest.steps).flatMap StepTrace.journal)
      have standing : whole.standing = (second.state, first.declined + second.declined) :=
        standing_deliver_split dispatcher client (by rw [List.flatMap_cons, journalCalls_append])
      have sameState : whole.state = second.state := congrArg Prod.fst standing
      have sameReport : (trace.report first.declined).add (rest.report second.declined) =
          Scheduler.Run.report ⟨rest.scheduler, trace :: rest.steps⟩ whole.declined := by
        rw [show whole.declined = _ from congrArg Prod.snd standing,
          ← Scheduler.Run.report_singleton next, ← Scheduler.Run.report_append]
        rfl
      simp only [finished, Bool.false_eq_true, ↓reduceIte, ih]
      rw [sameState, ← sameReport]
      simp [Summary.absorb, sameTime, Report.add_assoc, first, second, rest]

/-- An engine comes to what its scheduler does and a delivery of the journals of its steps. -/
theorem drive_eq (dispatcher : Dispatcher σ) (engine : Engine σ) (polling : Polling) :
    engine.drive dispatcher polling =
      let run := engine.scheduler.observe polling
      let delivery := dispatcher.deliver engine.client (run.steps.flatMap StepTrace.journal)
      (⟨run.scheduler, delivery.state⟩,
        ⟨run.steps.map (·.time), run.report delivery.declined⟩) := by
  cases polling with
  | step now =>
    simp only [drive, step_eq, Dispatcher.state_deliver_muted, Dispatcher.declined_deliver_muted,
      Scheduler.observe, Scheduler.Run.report_singleton, List.flatMap_singleton, List.map_cons,
      List.map_nil]
    rfl
  | run start stop =>
    simp only [drive, runOver_eq, ← Scheduler.run_eq_runOver, List.nil_append, Report.zero_add]
    rfl

end Engine

end TimedCommands
