import TimedCommands.Proofs.Dispatch.Engine

/-!
# What is logged of a sequence

An operator follows a sequence by two records: that it was scheduled, and that it is complete. The
first is logged where a directive starts the sequence, the second where its last repetition has been
handled, and neither depends on the client or on what its commands come to. So of all that a step
logs, its infos are its `StepTrace.milestones`, and these can be counted.

A step says of every sequence that it starts that it was scheduled, and in the order in which they
stand (`Scheduler.started_handleDirectives`). For the ends there is a balance: those that are done
before a step, and those that it says are complete, are together those that are done behind it
(`Scheduler.lifecycle_step`). The balance adds up over the steps of a run
(`Scheduler.lifecycle_poll`), and as a sequence that is done remains so, what is left of it is that
every sequence that gets there is said to be complete once (`Scheduler.ends_poll`).
-/

namespace TimedCommands

variable {σ : Type}

/-- Whether a record carries a message at a level. -/
def LogRecord.carries (record : LogRecord) (level : LogLevel) (message : String) : Bool :=
  record.level = level ∧ record.message = message

/-- The content of a field of a record. -/
def LogRecord.field? (record : LogRecord) (name : String) : Option String :=
  record.fields.lookup name

/-- The records of a log that have a level and a message. -/
def recordsOf (level : LogLevel) (message : String) (log : List LogRecord) : List LogRecord :=
  log.filter (·.carries level message)

/-- The records of a kind in two logs are those of the one and those of the other. -/
theorem recordsOf_append (level : LogLevel) (message : String) (first second : List LogRecord) :
    recordsOf level message (first ++ second) =
      recordsOf level message first ++ recordsOf level message second :=
  List.filter_append ..

/-- The records of a kind in logs in a row are those of each, in a row. -/
theorem recordsOf_flatMap {α : Type} (level : LogLevel) (message : String) (parts : List α)
    (records : α → List LogRecord) :
    recordsOf level message (parts.flatMap records) =
      parts.flatMap fun part => recordsOf level message (records part) :=
  List.filter_flatMap ..

/-- The record of an entry of a journal, if it is one. -/
def JournalEntry.record? : JournalEntry → Option LogRecord
  | .note record => some record
  | .call _ _ => none

/-- The records of a journal, in order. -/
def journalRecords (journal : List JournalEntry) : List LogRecord :=
  journal.filterMap JournalEntry.record?

/-- If the entry is a call and is refused, the record of that is a warning. -/
def JournalEntry.Warns : JournalEntry → Prop
  | .note _ => True
  | .call _ refusal => refusal.level = .warning

/-- The records of a journal begin with that of its first entry, if it is one. -/
@[simp] theorem journalRecords_cons (entry : JournalEntry) (rest : List JournalEntry) :
    journalRecords (entry :: rest) = entry.record?.toList ++ journalRecords rest := by
  cases entry <;> rfl

/-- The records of two journals are those of the one and those of the other. -/
@[simp] theorem journalRecords_append (first second : List JournalEntry) :
    journalRecords (first ++ second) = journalRecords first ++ journalRecords second :=
  List.filterMap_append

/-- The records of journals in a row are those of each, in a row. -/
theorem journalRecords_flatMap {α : Type} (parts : List α) (journal : α → List JournalEntry) :
    journalRecords (parts.flatMap journal) =
      parts.flatMap fun part => journalRecords (journal part) :=
  List.filterMap_flatMap ..

/-- A journal of records has these records. -/
@[simp] theorem journalRecords_notes (records : List LogRecord) :
    journalRecords (records.map JournalEntry.note) = records := by
  simp [journalRecords, JournalEntry.record?, Function.comp_def]

/-- What a delivery informs of are records of its journal. -/
theorem infos_deliverEntries (dispatcher : Dispatcher σ) (message : String)
    {journal : List JournalEntry} (warns : ∀ entry ∈ journal, entry.Warns)
    (delivery : Delivery σ) :
    recordsOf .info message
        (journal.foldl dispatcher.muted.deliverEntry delivery).log.toList =
      recordsOf .info message (delivery.log.toList ++ journalRecords journal) := by
  induction journal generalizing delivery with
  | nil => simp [journalRecords]
  | cons entry rest ih =>
    obtain ⟨first, later⟩ := List.forall_mem_cons.mp warns
    rw [List.foldl_cons, ih later]
    cases entry with
    | note record => simp [Dispatcher.deliverEntry, JournalEntry.record?]
    | call made refusal =>
      have warning : refusal.level = .warning := first
      by_cases ran : (dispatcher.execute made delivery.state).ran
      · simp [Dispatcher.deliverEntry, Dispatcher.muted, JournalEntry.record?, ran]
      · simp [Dispatcher.deliverEntry, Dispatcher.muted, JournalEntry.record?, ran, recordsOf,
          LogRecord.carries, warning]

/-- What is said of the directives and of the ends of the sequences of a step, in order. -/
def StepTrace.milestones (trace : StepTrace) : List LogRecord :=
  trace.directives.flatMap DirectiveTrace.records
    ++ trace.repetitions.flatMap RepetitionTrace.completion

/-- A repetition informs of nothing that a client refuses. -/
theorem RepetitionTrace.warns (trace : RepetitionTrace) (now : Time) :
    ∀ entry ∈ trace.journal now, entry.Warns := by
  have notes (records : List LogRecord) : ∀ entry ∈ records.map JournalEntry.note, entry.Warns := by
    simp [JournalEntry.Warns]
  obtain ⟨sequence, iteration, outcome⟩ := trace
  rw [journal, List.forall_mem_append]
  refine ⟨?_, notes _⟩
  cases outcome with
  | missed due => exact notes [_]
  | failed fault => exact notes [_]
  | ran commands =>
    intro entry member
    obtain ⟨command, -, member⟩ := List.mem_flatMap.mp member
    rcases List.mem_pair.mp member with rfl | rfl
    · trivial
    · rfl

/-- In the journal of a step, what is logged on a refusal is a warning. -/
theorem StepTrace.warns (trace : StepTrace) : ∀ entry ∈ trace.journal, entry.Warns := by
  intro entry member
  rw [journal] at member
  rcases List.mem_append.mp member with noted | told
  · obtain ⟨directive, -, noted⟩ := List.mem_flatMap.mp noted
    obtain ⟨record, -, rfl⟩ := List.mem_map.mp noted
    trivial
  · obtain ⟨repetition, -, told⟩ := List.mem_flatMap.mp told
    exact repetition.warns trace.time entry told

/-- All that a repetition informs of is the end of its sequence. -/
theorem RepetitionTrace.infos_journal (trace : RepetitionTrace) (now : Time) (message : String) :
    recordsOf .info message (journalRecords (trace.journal now)) =
      recordsOf .info message trace.completion := by
  obtain ⟨sequence, iteration, outcome⟩ := trace
  rw [journal, journalRecords_append, journalRecords_notes, recordsOf_append]
  cases outcome with
  | missed due => rfl
  | failed fault => rfl
  | ran commands =>
    have silent : (commands.flatMap fun command => recordsOf .info message
        (journalRecords (commandJournal ⟨sequence, iteration, .ran commands⟩ now command))) = [] :=
      List.flatMap_eq_nil_iff.mpr fun command _ => rfl
    rw [journalRecords_flatMap, recordsOf_flatMap, silent, List.nil_append]

/-- What a step informs of are its milestones. -/
theorem StepTrace.infos_journal (trace : StepTrace) (message : String) :
    recordsOf .info message (journalRecords trace.journal) =
      recordsOf .info message trace.milestones := by
  rw [journal, milestones, ← List.map_flatMap, journalRecords_append, journalRecords_notes,
    journalRecords_flatMap, recordsOf_append, recordsOf_append]
  simp only [recordsOf_flatMap, RepetitionTrace.infos_journal]

/-- What the delivery of several steps informs of is said in their milestones. -/
theorem infos_deliver_steps (dispatcher : Dispatcher σ) (client : σ) (steps : List StepTrace)
    (message : String) :
    recordsOf .info message
        (dispatcher.muted.deliver client (steps.flatMap StepTrace.journal)).log.toList =
      steps.flatMap fun step => recordsOf .info message step.milestones := by
  have warns : ∀ entry ∈ steps.flatMap StepTrace.journal, entry.Warns := by
    intro entry member
    obtain ⟨step, -, member⟩ := List.mem_flatMap.mp member
    exact step.warns entry member
  rw [Dispatcher.deliver, infos_deliverEntries dispatcher message warns, List.nil_append,
    journalRecords_flatMap, recordsOf_flatMap]
  simp only [StepTrace.infos_journal]

namespace ScheduledSequence

/-- The record that a sequence was scheduled. -/
def startRecord (sequence : ScheduledSequence) : LogRecord :=
  ⟨.info, "sequence scheduled",
    [("directive", Keyword.executeSequence.text), ("group", sequence.group),
      ("total", toString sequence.total), ("period", toString sequence.period),
      ("start", toString sequence.start.toNat)]⟩

/-- The record that a sequence is complete. -/
def endRecord (sequence : ScheduledSequence) : LogRecord :=
  ⟨.info, "sequence complete",
    [("group", sequence.group), ("total", toString sequence.total)]⟩

end ScheduledSequence

/-- The records of the sequences that are done. -/
def endRecords (sequences : List ScheduledSequence) : List LogRecord :=
  (sequences.filter ScheduledSequence.isDone).map ScheduledSequence.endRecord

/-- A directive informs of the sequence that it starts, if it starts one. -/
theorem Directive.Achieves.starts {directive : Directive} {effects : List Effect}
    (achieves : directive.Achieves effects) :
    recordsOf .info "sequence scheduled" (effects.map (Effect.record directive)) =
      directive.sequence?.toList.map ScheduledSequence.startRecord := by
  cases achieves with
  | @started sequence starts =>
    obtain ⟨time, name, action⟩ := directive
    cases action with
    | executeSequence total period =>
      cases starts
      rfl
    | _ => cases starts
  | @single effect starts other counts =>
    rw [starts]
    cases effect with
    | sequenceScheduled total period start => exact absurd rfl (other total period start)
    | _ => rfl
  | @axes rank spec bindings isLattice aims =>
    have starts : directive.sequence? = none := by rw [Directive.sequence?, isLattice]
    rw [starts, List.map_map]
    refine List.filter_eq_nil_iff.mpr fun record member => ?_
    obtain ⟨binding, -, rfl⟩ := List.mem_map.mp member
    simp [LogRecord.carries, Effect.record, Effect.message]

/-- No directive says that a sequence is complete. -/
theorem DirectiveTrace.ends (trace : DirectiveTrace) :
    recordsOf .info "sequence complete" trace.records = [] := by
  obtain ⟨directive, outcome⟩ := trace
  cases outcome with
  | missed => rfl
  | failed fault => rfl
  | fired effects =>
    refine List.filter_eq_nil_iff.mpr fun record member => ?_
    obtain ⟨effect, -, rfl⟩ := List.mem_map.mp member
    cases effect <;> simp [LogRecord.carries, Effect.record, Effect.message]

/-- The last repetition of a sequence says that it is complete, and no other one does. -/
theorem RepetitionTrace.completion_eq (trace : RepetitionTrace) :
    trace.completion =
      if trace.iteration + 1 = trace.sequence.total then [trace.sequence.endRecord] else [] := rfl

namespace StepTrace

/-- A step informs of starts where it fires directives. -/
theorem starts_milestones (trace : StepTrace) :
    recordsOf .info "sequence scheduled" trace.milestones =
      recordsOf .info "sequence scheduled" (trace.directives.flatMap DirectiveTrace.records) := by
  have silent : recordsOf .info "sequence scheduled"
      (trace.repetitions.flatMap RepetitionTrace.completion) = [] := by
    rw [recordsOf_flatMap]
    refine List.flatMap_eq_nil_iff.mpr fun repetition _ => ?_
    rw [RepetitionTrace.completion_eq]
    split <;> rfl
  rw [milestones, recordsOf_append, silent, List.append_nil]

/-- A step informs of ends where it handles repetitions. -/
theorem ends_milestones (trace : StepTrace) :
    recordsOf .info "sequence complete" trace.milestones =
      trace.repetitions.flatMap RepetitionTrace.completion := by
  have silent : recordsOf .info "sequence complete"
      (trace.directives.flatMap DirectiveTrace.records) = [] := by
    rw [recordsOf_flatMap]
    exact List.flatMap_eq_nil_iff.mpr fun directive _ => directive.ends
  have said (repetition : RepetitionTrace) :
      recordsOf .info "sequence complete" repetition.completion = repetition.completion := by
    rw [RepetitionTrace.completion_eq]
    split <;> rfl
  rw [milestones, recordsOf_append, silent, List.nil_append, recordsOf_flatMap]
  simp only [said]

end StepTrace

/-- A sequence that is started has a repetition ahead. -/
theorem RunState.isDone_of_sequence? {arity : ArityLookup} {state : RunState}
    {directive : Directive} {result : RunState × List Effect} {sequence : ScheduledSequence}
    (fired : state.fire arity directive = .ok result)
    (starts : directive.sequence? = some sequence) : sequence.isDone = false := by
  obtain ⟨-, -, fresh⟩ := Directive.start_of_sequence? starts
  have repeats := (RunState.inRange_of_fire fired starts).total_pos
  rw [ScheduledSequence.isDone, fresh, decide_eq_false_iff_not]
  omega

namespace Scheduler

variable {scheduler : Scheduler} {now : Time}

/-- What directives start is started behind all others and said in this order, and nothing of it
is behind. -/
theorem started_handleDirectives (arity : ArityLookup) (now : Time) (state : RunState)
    (due : List Directive) :
    let handled := handleDirectives arity now state due
    ∃ started, handled.1.sequences = state.sequences ++ started ∧
      recordsOf .info "sequence scheduled" (handled.2.flatMap DirectiveTrace.records) =
        started.map ScheduledSequence.startRecord ∧
      ∀ sequence ∈ started, sequence.isDone = false := by
  induction due generalizing state with
  | nil => exact ⟨[], (List.append_nil _).symm, rfl, nofun⟩
  | cons directive rest ih =>
    rw [handleDirectives]
    by_cases missed : directive.time < now
    · rw [handleDirective, if_pos missed]
      exact ih state
    · rw [handleDirective, if_neg missed]
      cases fired : state.fire arity directive with
      | error fault => exact ih state
      | ok result =>
        obtain ⟨changed, effects⟩ := result
        obtain ⟨started, sequences, said, fresh⟩ := ih changed
        refine ⟨directive.sequence?.toList ++ started, ?_, ?_, ?_⟩
        · rw [sequences, RunState.sequences_of_fire fired, List.append_assoc]
        · rw [List.flatMap_cons, recordsOf_append, said, List.map_append]
          exact congrArg (· ++ _) (RunState.achieves_of_fire fired).starts
        · intro sequence member
          rcases List.mem_append.mp member with first | later
          · exact RunState.isDone_of_sequence? fired (Option.mem_toList.mp first)
          · exact fresh sequence later

/-- The last of `total` repetitions is among those that are handled from `first` on if it is not
behind them and not ahead of them. -/
theorem flatMap_last (record : LogRecord) (first count total : Nat) :
    (List.range' first count).flatMap (fun iteration =>
        if iteration + 1 = total then [record] else []) =
      if first < total ∧ total ≤ first + count then [record] else [] := by
  induction count generalizing first with
  | zero =>
    rw [if_neg (by omega)]
    rfl
  | succ count ih =>
    rw [List.range'_succ, List.flatMap_cons, ih]
    by_cases last : first + 1 = total
    · have here : first < total ∧ total ≤ first + (count + 1) := by omega
      have notLater : ¬ (first + 1 < total ∧ total ≤ first + 1 + count) := by omega
      rw [if_pos last, if_pos here, if_neg notLater]
      rfl
    · have same : (first + 1 < total ∧ total ≤ first + 1 + count) ↔
          (first < total ∧ total ≤ first + (count + 1)) := by omega
      simp only [if_neg last, same]
      rfl

/-- Whether a sequence is done is said once: if it was done before, or else in this step. -/
theorem ends_handleSequence (registry : Registry) (now : Time) (sequence : ScheduledSequence) :
    (if sequence.isDone then [sequence.endRecord] else []) ++
        (handleSequence registry now sequence).flatMap RepetitionTrace.completion =
      if (sequence.advanceTo now).isDone then [sequence.endRecord] else [] := by
  have grown := sequence.completed_le_completedAt now
  have said : (handleSequence registry now sequence).flatMap RepetitionTrace.completion =
      if sequence.completed < sequence.total ∧ sequence.total ≤ sequence.completedAt now then
        [sequence.endRecord] else [] := by
    have range := flatMap_last sequence.endRecord sequence.completed
      (sequence.completedAt now - sequence.completed) sequence.total
    rw [Nat.add_sub_cancel' grown] at range
    rw [← range, handleSequence, List.flatMap_map]
    rfl
  rw [said]
  simp only [ScheduledSequence.isDone, ScheduledSequence.advanceTo, decide_eq_true_eq]
  by_cases before : sequence.total ≤ sequence.completed
  · have after : sequence.total ≤ sequence.completedAt now := Nat.le_trans before grown
    simp [before, after]
  · by_cases after : sequence.total ≤ sequence.completedAt now <;>
      simp [before, after, Nat.lt_of_not_le before]

end Scheduler

/-- A sequence has a record of its end if it is done. -/
theorem endRecords_cons (sequence : ScheduledSequence) (rest : List ScheduledSequence) :
    endRecords (sequence :: rest) =
      (if sequence.isDone then [sequence.endRecord] else []) ++ endRecords rest := by
  cases done : sequence.isDone <;> simp [endRecords, done]

/-- Sequences have their records of the end in order. -/
theorem endRecords_append (first second : List ScheduledSequence) :
    endRecords (first ++ second) = endRecords first ++ endRecords second := by
  simp [endRecords]

/-- The ends that a step says are those that its sequences have reached in it. -/
theorem endRecords_advance (registry : Registry) (now : Time) (sequences : List ScheduledSequence) :
    (endRecords sequences ++
        (sequences.flatMap (Scheduler.handleSequence registry now)).flatMap
          RepetitionTrace.completion).Perm
      (endRecords (sequences.map (·.advanceTo now))) := by
  induction sequences with
  | nil => exact .refl _
  | cons sequence rest ih =>
    have own := Scheduler.ends_handleSequence registry now sequence
    rw [List.map_cons, endRecords_cons, endRecords_cons, List.flatMap_cons, List.flatMap_append,
      show (sequence.advanceTo now).endRecord = sequence.endRecord from rfl, ← own]
    simp only [List.append_assoc]
    exact (List.perm_append_comm_assoc _ _ _).trans (.append_left _ ih) |>.append_left _

/-- Of sequences that have repetitions ahead there is nothing to say. -/
theorem endRecords_of_fresh {sequences : List ScheduledSequence}
    (fresh : ∀ sequence ∈ sequences, sequence.isDone = false) : endRecords sequences = [] := by
  have none : sequences.filter ScheduledSequence.isDone = [] :=
    List.filter_eq_nil_iff.mpr fun sequence member => by simp [fresh sequence member]
  rw [endRecords, none, List.map_nil]

/-- A sequence that has come further was still started in the same way. -/
theorem ScheduledSequence.startRecord_advanceAll (sequence : ScheduledSequence)
    (times : List Time) : (sequence.advanceAll times).startRecord = sequence.startRecord := by
  rw [advanceAll_eq]
  rfl

namespace Scheduler

/-- A step says which sequences it starts and which it completes. -/
theorem lifecycle_step (scheduler : Scheduler) (now : Time) :
    let before := scheduler.state.sequences
    let after := (scheduler.step now).1.state.sequences
    let said := (scheduler.step now).2.milestones
    ∃ started, after = (before ++ started).map (·.advanceTo now) ∧
      recordsOf .info "sequence scheduled" said = started.map ScheduledSequence.startRecord ∧
      (endRecords before ++ recordsOf .info "sequence complete" said).Perm (endRecords after) := by
  intro before after said
  obtain ⟨started, sequences, starts, fresh⟩ := started_handleDirectives scheduler.arity now
    scheduler.state (scheduler.pending.takeWhile (·.time ≤ now))
  have advanced : after = (before ++ started).map (·.advanceTo now) := by
    rw [← sequences]
    rfl
  have ends : recordsOf .info "sequence complete" said =
      ((before ++ started).flatMap
        (handleSequence (scheduler.afterDirectives now).registry now)).flatMap
          RepetitionTrace.completion := by
    rw [StepTrace.ends_milestones, repetitions_step]
    exact congrArg (fun sequences => (List.flatMap _ sequences).flatMap _) sequences
  have none : endRecords (before ++ started) = endRecords before := by
    rw [endRecords_append, endRecords_of_fresh fresh, List.append_nil]
  refine ⟨started, advanced, (StepTrace.starts_milestones _).trans starts, ?_⟩
  rw [advanced, ends, ← none]
  exact endRecords_advance _ now _

/-- The steps at a list of times say which sequences they start, in order, and which they
complete. -/
theorem lifecycle_poll (scheduler : Scheduler) (times : List Time) :
    let before := scheduler.state.sequences
    let run := scheduler.poll times
    ∃ started, run.scheduler.state.sequences = before.map (·.advanceAll times) ++ started ∧
      run.steps.flatMap (fun step => recordsOf .info "sequence scheduled" step.milestones) =
        started.map ScheduledSequence.startRecord ∧
      (endRecords before ++
          run.steps.flatMap fun step => recordsOf .info "sequence complete" step.milestones).Perm
        (endRecords run.scheduler.state.sequences) := by
  intro before run
  induction times generalizing scheduler with
  | nil =>
    have unchanged : before.map (·.advanceAll []) ++ [] = before := by
      rw [List.append_nil]
      exact List.map_id _
    have silent : endRecords before ++ [] = endRecords before := List.append_nil _
    exact ⟨[], unchanged.symm, rfl, .of_eq silent⟩
  | cons now later ih =>
    obtain ⟨first, sequences, said, ended⟩ := scheduler.lifecycle_step now
    obtain ⟨rest, placed, saidLater, endedLater⟩ := ih (scheduler.step now).1
    refine ⟨first.map (·.advanceAll (now :: later)) ++ rest, ?_, ?_, ?_⟩
    · rw [sequences] at placed
      refine placed.trans ?_
      simp [before, Function.comp_def]
    · have same : (first.map (·.advanceAll (now :: later))).map ScheduledSequence.startRecord =
          first.map ScheduledSequence.startRecord := by
        rw [List.map_map]
        exact List.map_congr_left fun sequence _ => sequence.startRecord_advanceAll _
      rw [List.map_append, same, ← said, ← saidLater]
      rfl
    · refine .trans ?_ endedLater
      refine .trans ?_ (.append_right _ ended)
      exact .of_eq (List.append_assoc ..).symm

end Scheduler

/-- A sequence that is done remains so. -/
theorem ScheduledSequence.isDone_advanceAll {sequence : ScheduledSequence}
    (done : sequence.isDone = true) (times : List Time) :
    (sequence.advanceAll times).isDone = true := by
  have grown := sequence.completed_le_advanceAll times
  rw [isDone, decide_eq_true_iff] at done ⊢
  rw [advanceAll_eq]
  exact Nat.le_trans done grown

/-- Among sequences that move on, those that are done are those that were, and those that have got
there. -/
theorem endRecords_advanceAll (sequences : List ScheduledSequence) (times : List Time) :
    (endRecords sequences ++
        endRecords ((sequences.filter (!·.isDone)).map (·.advanceAll times))).Perm
      (endRecords (sequences.map (·.advanceAll times))) := by
  induction sequences with
  | nil => exact .refl _
  | cons sequence rest ih =>
    have same : (sequence.advanceAll times).endRecord = sequence.endRecord := by
      rw [ScheduledSequence.advanceAll_eq]
      rfl
    cases done : sequence.isDone with
    | true =>
      have still := ScheduledSequence.isDone_advanceAll done times
      rw [List.filter_cons_of_neg (by simp [done]), List.map_cons, endRecords_cons, endRecords_cons,
        same, if_pos done, if_pos still, List.append_assoc]
      exact ih.append_left _
    | false =>
      rw [List.filter_cons_of_pos (by simp [done]), List.map_cons, List.map_cons, endRecords_cons,
        endRecords_cons, endRecords_cons, if_neg (by simp [done]), List.nil_append]
      exact (List.perm_append_comm_assoc _ _ _).trans (ih.append_left _)

namespace Scheduler

/-- The steps at a list of times say once of each sequence that they complete that it is. -/
theorem ends_poll {scheduler : Scheduler} {times : List Time} {started : List ScheduledSequence}
    {said : List LogRecord}
    (placed : (scheduler.poll times).scheduler.state.sequences =
      scheduler.state.sequences.map (·.advanceAll times) ++ started)
    (balance : (endRecords scheduler.state.sequences ++ said).Perm
      (endRecords (scheduler.poll times).scheduler.state.sequences)) :
    said.Perm (endRecords
      ((scheduler.state.sequences.filter (!·.isDone)).map (·.advanceAll times) ++ started)) := by
  refine (List.perm_append_left_iff (endRecords scheduler.state.sequences)).mp ?_
  refine balance.trans ?_
  rw [placed, endRecords_append, endRecords_append, ← List.append_assoc]
  exact (endRecords_advanceAll _ times).symm.append_right _

end Scheduler

end TimedCommands
