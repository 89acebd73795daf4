import TimedCommands.Proofs.Dispatch.Lifecycle

/-!
# Reports and logs agree

What a step reports can be read off its log as well: the failures with their texts and in their
order, and the numbers of missed directives, of commands handed over and of commands that did not
run. `Report.AgreesWith` says so, and every directive and every repetition that is told keeps it
(`Account.Agrees.enact`).

The report has no place for what has gone well, but the log has: a directive that was carried out
leaves one warning if it has failed and its infos if it has not, and never both
(`DirectiveTrace.Logs`), and every sequence leaves one info where it starts and one where it ends.
`reports_agree_with_log` says all of it of the engine that counts in one statement and logs in the
next.
-/

namespace TimedCommands

/-- A log whose records are all of one level says nothing at another one. -/
theorem recordsOf_eq_nil {level other : LogLevel} {log : List LogRecord}
    (levels : ∀ record ∈ log, record.level = other) (different : other ≠ level)
    (message : String) : recordsOf level message log = [] := by
  refine List.filter_eq_nil_iff.mpr fun record member => ?_
  simp [LogRecord.carries, levels record member, different]

namespace Report

/-- A report says what a log says. -/
structure AgreesWith (report : Report) (log : List LogRecord) : Prop where
  failures : (recordsOf .warning "directive failed" log).map (·.field? "error") =
    report.failures.map fun failure => some failure.fault.message
  missed : (recordsOf .warning "directive missed its step" log).length = report.missed
  dispatched : (recordsOf .debug "dispatching command" log).length = report.dispatched
  declined : (recordsOf .warning "command did not run" log).length = report.declined

/-- Reports are added up where logs are strung together. -/
theorem AgreesWith.append {report part : Report} {log records : List LogRecord}
    (agrees : report.AgreesWith log) (further : part.AgreesWith records) :
    (report.add part).AgreesWith (log ++ records) := by
  constructor
  · rw [recordsOf_append, List.map_append, agrees.failures, further.failures]
    exact List.map_append.symm
  · rw [recordsOf_append, List.length_append, agrees.missed, further.missed]
    rfl
  · rw [recordsOf_append, List.length_append, agrees.dispatched, further.dispatched]
    rfl
  · rw [recordsOf_append, List.length_append, agrees.declined, further.declined]
    rfl

/-- Records that inform of a success report nothing. -/
theorem agreesWith_of_info {records : List LogRecord}
    (infos : ∀ record ∈ records, record.level = .info) (fired repetitions : Nat) :
    (⟨fired, 0, repetitions, 0, 0, []⟩ : Report).AgreesWith records := by
  constructor <;> rw [recordsOf_eq_nil infos (by decide)] <;> rfl

end Report

/-- What a directive adds to the report is what it adds to the log. -/
theorem DirectiveTrace.agreesWith_records (trace : DirectiveTrace) (now : Time) :
    (StepTrace.report ⟨now, [trace], []⟩ 0).AgreesWith trace.records := by
  obtain ⟨directive, outcome⟩ := trace
  cases outcome with
  | missed => constructor <;> rfl
  | failed fault => constructor <;> rfl
  | fired effects =>
    refine Report.agreesWith_of_info (fun record member => ?_) 1 0
    obtain ⟨effect, -, rfl⟩ := List.mem_map.mp member
    rfl

/-- That a sequence is complete is nothing to warn of. -/
theorem RepetitionTrace.level_of_mem_completion (trace : RepetitionTrace) {record : LogRecord}
    (member : record ∈ trace.completion) : record.level = .info := by
  rw [completion_eq] at member
  split at member
  · obtain rfl := List.mem_singleton.mp member
    rfl
  · cases member

namespace Account

variable {σ : Type} {dispatcher : Dispatcher σ} {account : Account σ} {now : Time}

/-- What has been counted is what has been logged. -/
def Agrees (account : Account σ) : Prop := account.report.AgreesWith account.log.toList

/-- Records that are pushed one after the other stand behind the log. -/
theorem toList_push_all (records : List LogRecord) (log : Array LogRecord) :
    (records.foldl Array.push log).toList = log.toList ++ records :=
  Array.toList_appendList

/-- Records that say what is counted with them leave an account that agrees. -/
theorem Agrees.tell_notes (agrees : account.Agrees) {part : Report} {records : List LogRecord}
    (further : part.AgreesWith records) (accepted : part.declined = 0)
    (dispatcher : Dispatcher σ) :
    (account.tell dispatcher (records.map JournalEntry.note) part).Agrees := by
  have same : { account.report.add part with declined := account.report.declined } =
      account.report.add part := by
    simp [Report.add, accepted]
  rw [Account.tell_notes, Agrees, toList_push_all, same]
  exact agrees.append further

/-- A command is announced and counted, and once more if it does not run. -/
theorem Agrees.tell_command (agrees : account.Agrees) (dispatcher : Dispatcher σ) (now : Time)
    (trace : RepetitionTrace) (command : ResolvedCommand) :
    (account.tell dispatcher (trace.commandJournal now command)
      { Report.zero with dispatched := 1 }).Agrees := by
  have announced : ({ Report.zero with dispatched := 1 } : Report).AgreesWith
      [⟨.debug, "dispatching command", [("group", trace.sequence.group),
        ("command", command.index.text), ("command_type", command.typeName),
        ("iteration", toString trace.iteration), ("time", toString now.toNat)]⟩] := by
    constructor <;> rfl
  have refused : ({ Report.zero with declined := 1 } : Report).AgreesWith
      [⟨.warning, "command did not run", [("group", trace.sequence.group),
        ("command", command.index.text), ("time", toString now.toNat)]⟩] := by
    constructor <;> rfl
  by_cases ran : (dispatcher.execute (RepetitionTrace.callOf now command) account.client).ran
  · have told := agrees.append announced
    simpa [Agrees, tell, RepetitionTrace.commandJournal, Dispatcher.deliverEntry,
      Dispatcher.muted, ran, Report.add, Report.zero] using told
  · have told := (agrees.append announced).append refused
    simpa [Agrees, tell, RepetitionTrace.commandJournal, Dispatcher.deliverEntry,
      Dispatcher.muted, ran, Report.add, Report.zero] using told

/-- Commands that are told leave an account that agrees, whether or not they run. -/
theorem Agrees.tell_commands (agrees : account.Agrees) (dispatcher : Dispatcher σ) (now : Time)
    (trace : RepetitionTrace) (commands : List ResolvedCommand) :
    (account.tell dispatcher (commands.flatMap (trace.commandJournal now))
      { Report.zero with dispatched := commands.length }).Agrees := by
  induction commands generalizing account with
  | nil =>
    have silent : Report.zero.AgreesWith [] := by constructor <;> rfl
    exact agrees.tell_notes silent rfl dispatcher
  | cons command rest ih =>
    have told := ih (agrees.tell_command dispatcher now trace command)
    rw [tell_tell] at told
    simpa [Report.add, Report.zero, Nat.add_comm 1] using told

/-- A directive that is told leaves an account that agrees. -/
theorem Agrees.enact_directive (agrees : account.Agrees) (dispatcher : Dispatcher σ) (now : Time)
    (trace : DirectiveTrace) : (account.enact dispatcher ⟨now, [trace], []⟩).Agrees := by
  rw [Account.enact_directive, Agrees, toList_push_all]
  exact agrees.append (trace.agreesWith_records now)

/-- A repetition that is told leaves an account that agrees, also if it ends its sequence. -/
theorem Agrees.enact_repetition (agrees : account.Agrees) (dispatcher : Dispatcher σ)
    (now : Time) (trace : RepetitionTrace) :
    (account.enact dispatcher ⟨now, [], [trace]⟩).Agrees := by
  have concluded {told : Account σ} (toldAgrees : told.Agrees) :
      (told.tell dispatcher (trace.completion.map JournalEntry.note) Report.zero).Agrees := by
    refine toldAgrees.tell_notes (Report.agreesWith_of_info (fun record member => ?_) 0 0) rfl _
    exact trace.level_of_mem_completion member
  obtain ⟨sequence, iteration, outcome⟩ := trace
  rw [Account.enact_repetition, RepetitionTrace.journal, ← Report.add_zero ⟨_, _, _, _, _, _⟩,
    ← tell_tell]
  apply concluded
  cases outcome with
  | missed due =>
    have warned : Report.zero.AgreesWith [⟨.warning, "repetition missed its step",
        [("group", sequence.group), ("iteration", toString iteration),
          ("due", toString due.toNat)]⟩] := by
      constructor <;> rfl
    exact agrees.tell_notes warned rfl dispatcher
  | failed fault =>
    have warned : (⟨0, 0, 1, 0, 0,
        [⟨RepetitionTrace.title ⟨sequence, iteration, .failed fault⟩, fault⟩]⟩ : Report).AgreesWith
        [⟨.warning, "directive failed", [("group", sequence.group),
          ("iteration", toString iteration), ("error", fault.message)]⟩] := by
      constructor <;> rfl
    exact agrees.tell_notes warned rfl dispatcher
  | ran commands =>
    have begun : (⟨0, 0, 1, 0, 0, []⟩ : Report).AgreesWith [] := by constructor <;> rfl
    have told := (agrees.tell_notes begun rfl dispatcher).tell_commands dispatcher now
      ⟨sequence, iteration, .ran commands⟩ commands
    rw [tell_tell] at told
    simpa [Report.add, Report.zero, RepetitionTrace.isMissed, RepetitionTrace.commands,
      RepetitionTrace.failure?] using told

/-- A step that is told to an account that agrees leaves one that agrees. -/
theorem Agrees.enact (agrees : account.Agrees) (dispatcher : Dispatcher σ) (trace : StepTrace) :
    (account.enact dispatcher trace).Agrees := by
  obtain ⟨now, directives, repetitions⟩ := trace
  rw [← List.nil_append repetitions, enact_repetitions]
  have fired : (account.enact dispatcher ⟨now, directives, []⟩).Agrees := by
    induction directives generalizing account with
    | nil => rwa [enact_nil]
    | cons first rest ih =>
      rw [← List.singleton_append, enact_directives]
      exact ih (agrees.enact_directive dispatcher now first)
  generalize account.enact dispatcher ⟨now, directives, []⟩ = told at fired ⊢
  induction repetitions generalizing told with
  | nil => rwa [enact_nil]
  | cons first rest ih =>
    rw [← List.singleton_append, enact_repetitions]
    exact ih _ (fired.enact_repetition dispatcher now first)

end Account

/-- What a directive that was carried out logs: one warning if it failed, and otherwise only infos
that name its keyword and its group, one of them or one for each axis of a lattice. -/
inductive DirectiveTrace.Logs (trace : DirectiveTrace) : Prop where
  | failed {fault : Fault} (fails : trace.outcome = .failed fault)
      (warning : trace.records = [⟨.warning, "directive failed",
        [("directive", trace.directive.line), ("error", fault.message)]⟩])
  | succeeded {effects : List Effect} (succeeds : trace.outcome = .fired effects)
      (count : trace.records.length = trace.directive.action.effectCount)
      (infos : ∀ record ∈ trace.records, record.level = .info)
      (names : ∀ record ∈ trace.records,
        record.field? "directive" = some trace.directive.action.keyword.text ∧
          record.field? "group" = some trace.directive.group)

namespace Scheduler

/-- A directive that is carried out logs its failure or its effects. -/
theorem logs_handleDirective (arity : ArityLookup) (now : Time) (state : RunState)
    (directive : Directive) :
    let trace : DirectiveTrace := ⟨directive, (handleDirective arity now state directive).2⟩
    trace.isMissed = false → trace.Logs := by
  intro trace carriedOut
  have notMissed : ¬ directive.time < now := by
    rw [isMissed_handleDirective] at carriedOut
    simpa using carriedOut
  cases fired : state.fire arity directive with
  | error fault =>
    have fails : trace.outcome = .failed fault := by
      simp [trace, handleDirective, notMissed, fired]
    refine .failed fails ?_
    rw [DirectiveTrace.records, fails]
  | ok result =>
    have succeeds : trace.outcome = .fired result.2 := by
      simp [trace, handleDirective, notMissed, fired]
    have records : trace.records = result.2.map (Effect.record directive) := by
      rw [DirectiveTrace.records, succeeds]
    refine .succeeded succeeds ?_ ?_ ?_
    · rw [records, List.length_map]
      exact (RunState.achieves_of_fire fired).length_effects
    · rw [records]
      intro record member
      obtain ⟨effect, -, rfl⟩ := List.mem_map.mp member
      rfl
    · rw [records]
      intro record member
      obtain ⟨effect, -, rfl⟩ := List.mem_map.mp member
      exact ⟨rfl, rfl⟩

/-- Each of the directives of a step that is carried out logs its failure or its effects. -/
theorem logs_handleDirectives (arity : ArityLookup) (now : Time) (state : RunState)
    (due : List Directive) :
    ∀ trace ∈ (handleDirectives arity now state due).2, trace.isMissed = false → trace.Logs := by
  intro trace member
  induction due generalizing state with
  | nil => cases member
  | cons directive rest ih =>
    rcases List.mem_cons.mp member with rfl | later
    · exact logs_handleDirective arity now state directive
    · exact ih _ later

end Scheduler

variable {σ : Type}

/-- The log of a step begins with the records of its directives. -/
theorem log_deliver_step (dispatcher : Dispatcher σ) (client : σ) (trace : StepTrace) :
    (dispatcher.deliver client trace.journal).log.toList =
      trace.directives.flatMap DirectiveTrace.records ++
        (dispatcher.deliver client
          (trace.repetitions.flatMap (·.journal trace.time))).log.toList := by
  rw [StepTrace.journal, ← List.map_flatMap, Dispatcher.log_deliver_append, Dispatcher.deliver,
    Dispatcher.deliver_notes]
  exact congrArg (· ++ _) (Account.toList_push_all _ #[])

/-- Reports and log records agree.

A step that counts in one statement and logs in the next comes to the report and the log that are
read off its trace; a dispatcher that logs itself adds its own records to that log and changes
nothing else. The failures of the report are the warnings of failed directives, with the same texts
in the same order, and its numbers of missed directives, of commands handed over and of commands
that did not run are those of their records. The log begins with the records of the directives, and
one that was carried out leaves there either one warning or its infos.

Over any steps, what is logged as scheduled are the sequences that the steps start, in order, and
what is logged as complete are those that were not done before and are done then, each once. -/
theorem reports_agree_with_log (dispatcher : Dispatcher σ) (client : σ) (scheduler : Scheduler)
    (now : Time) (times : List Time) :
    let engine : Engine σ := ⟨scheduler, client⟩
    let trace := (scheduler.step now).2
    let delivery := dispatcher.muted.deliver client trace.journal
    let report := trace.report delivery.declined
    let log := delivery.log.toList
    let before := scheduler.state.sequences
    let run := scheduler.poll times
    let whole := (engine.poll dispatcher times).flatMap (·.2.toList)
    engine.step dispatcher now =
        (⟨(scheduler.step now).1, delivery.state⟩, report, delivery.log) ∧
      delivery.standing = (dispatcher.deliver client trace.journal).standing ∧
      log.Sublist (dispatcher.deliver client trace.journal).log.toList ∧
      report.AgreesWith log ∧
      log = trace.directives.flatMap DirectiveTrace.records ++
        (dispatcher.muted.deliver client
          (trace.repetitions.flatMap (·.journal now))).log.toList ∧
      (∀ handled ∈ trace.directives, handled.isMissed = false → handled.Logs) ∧
      whole = (dispatcher.muted.deliver client
        (run.steps.flatMap StepTrace.journal)).log.toList ∧
      ∃ started, run.scheduler.state.sequences = before.map (·.advanceAll times) ++ started ∧
        recordsOf .info "sequence scheduled" whole =
          started.map ScheduledSequence.startRecord ∧
        (recordsOf .info "sequence complete" whole).Perm (endRecords
          ((before.filter (!·.isDone)).map (·.advanceAll times) ++ started)) := by
  intro engine trace delivery report log before run whole
  have heard : whole = (dispatcher.muted.deliver client
      (run.steps.flatMap StepTrace.journal)).log.toList :=
    Engine.log_poll dispatcher engine times
  obtain ⟨started, placed, starts, balance⟩ := scheduler.lifecycle_poll times
  refine ⟨Engine.step_eq dispatcher engine now, dispatcher.standing_muted client trace.journal,
    dispatcher.sublist_log_muted trace.journal rfl (.refl _), ?_, log_deliver_step _ client trace,
    Scheduler.logs_handleDirectives _ _ _ _, heard, started, placed, ?_, ?_⟩
  · have begun : Account.Agrees (⟨client, Report.zero, #[]⟩ : Account σ) := by
      constructor <;> rfl
    have told := begun.enact dispatcher trace
    rwa [Account.enact_begun] at told
  · rw [heard, infos_deliver_steps]
    exact starts
  · rw [heard, infos_deliver_steps]
    exact Scheduler.ends_poll placed balance

end TimedCommands
