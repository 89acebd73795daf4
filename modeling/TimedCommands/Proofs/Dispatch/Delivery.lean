import TimedCommands.Schedule.Scheduler

/-!
# Delivering calls

A dispatcher is handed the calls of a journal and nothing else, one by one and in order,
whatever it answers. `Dispatcher.watched` makes the calls that a dispatcher is handed
visible, and `calls_watched` names them. Records change nothing but the log, so two journals
with the same calls leave a dispatcher in the same state (`deliver_congr`).
-/

namespace TimedCommands

variable {σ : Type}

/-- The call of a journal entry, if it is one. -/
def JournalEntry.call? : JournalEntry → Option Call
  | .note _ => none
  | .call made _ => some made

/-- The calls of a journal, in order. -/
def journalCalls (journal : List JournalEntry) : List Call := journal.filterMap JournalEntry.call?

/-- A dispatcher that answers as another does and keeps the calls that it is handed. -/
def Dispatcher.watched (dispatcher : Dispatcher σ) : Dispatcher (σ × List Call) where
  execute call state :=
    let reply := dispatcher.execute call state.1
    ⟨reply.ran, reply.notes, (reply.next, state.2 ++ [call])⟩

/-- The calls of two journals are those of the one and those of the other. -/
@[simp] theorem journalCalls_append (first second : List JournalEntry) :
    journalCalls (first ++ second) = journalCalls first ++ journalCalls second :=
  List.filterMap_append

/-- Records are no calls. -/
@[simp] theorem journalCalls_notes (records : List LogRecord) :
    journalCalls (records.map JournalEntry.note) = [] := by
  simp [journalCalls, JournalEntry.call?]

/-- The calls of journals in a row are those of each, in a row. -/
theorem journalCalls_flatMap {α : Type} (parts : List α) (journal : α → List JournalEntry) :
    journalCalls (parts.flatMap journal) =
      parts.flatMap fun part => journalCalls (journal part) := by
  induction parts with
  | nil => rfl
  | cons part rest ih => simp [ih]

/-- An entry hands over its call, if it is one, whatever the answer. -/
theorem calls_deliverEntry (dispatcher : Dispatcher σ) (delivery : Delivery (σ × List Call))
    (entry : JournalEntry) :
    (dispatcher.watched.deliverEntry delivery entry).state.2 =
      delivery.state.2 ++ entry.call?.toList := by
  cases entry with
  | note record => simp [Dispatcher.deliverEntry, JournalEntry.call?]
  | call made declined =>
    by_cases ran : (dispatcher.execute made delivery.state.1).ran <;>
      simp [Dispatcher.deliverEntry, Dispatcher.watched, JournalEntry.call?, ran]

/-- Whatever a dispatcher answers, it is handed the calls of the journal in order. -/
theorem calls_deliverEntries (dispatcher : Dispatcher σ) (journal : List JournalEntry)
    (delivery : Delivery (σ × List Call)) :
    (journal.foldl dispatcher.watched.deliverEntry delivery).state.2 =
      delivery.state.2 ++ journalCalls journal := by
  induction journal generalizing delivery with
  | nil => simp [journalCalls]
  | cons entry rest ih =>
    rw [List.foldl_cons, ih, calls_deliverEntry]
    cases call : entry.call? <;> simp [journalCalls, call]

/-- A dispatcher that is watched has been handed the calls of the journal. -/
theorem calls_watched (dispatcher : Dispatcher σ) (initial : σ) (journal : List JournalEntry) :
    (dispatcher.watched.deliver (initial, []) journal).state.2 = journalCalls journal := by
  rw [Dispatcher.deliver, calls_deliverEntries, List.nil_append]

/-- The state of a dispatcher and the number of commands that did not run, after one call more. -/
def Dispatcher.answer (dispatcher : Dispatcher σ) (standing : σ × Nat) (call : Call) : σ × Nat :=
  let reply := dispatcher.execute call standing.1
  (reply.next, if reply.ran then standing.2 else standing.2 + 1)

/-- Where a delivery stands, its log left aside. -/
def Delivery.standing (delivery : Delivery σ) : σ × Nat := (delivery.state, delivery.declined)

/-- Where a delivery stands is told by the calls that were answered. -/
theorem standing_deliverEntries (dispatcher : Dispatcher σ) (journal : List JournalEntry)
    (delivery : Delivery σ) :
    (journal.foldl dispatcher.deliverEntry delivery).standing =
      (journalCalls journal).foldl dispatcher.answer delivery.standing := by
  induction journal generalizing delivery with
  | nil => rfl
  | cons entry rest ih =>
    rw [List.foldl_cons, ih]
    cases entry with
    | note record => rfl
    | call made declined =>
      by_cases ran : (dispatcher.execute made delivery.state).ran <;>
        simp [Dispatcher.deliverEntry, Dispatcher.answer, Delivery.standing, journalCalls,
          JournalEntry.call?, ran]

/-- What comes of a journal is what its calls come to, answered one after the other. -/
theorem standing_deliver (dispatcher : Dispatcher σ) (initial : σ) (journal : List JournalEntry) :
    (dispatcher.deliver initial journal).standing =
      (journalCalls journal).foldl dispatcher.answer (initial, 0) :=
  standing_deliverEntries dispatcher journal ⟨initial, 0, #[]⟩

/-- What comes of a journal is told by its calls, but for the log. -/
theorem deliver_congr {first second : List JournalEntry}
    (sameCalls : journalCalls first = journalCalls second) (dispatcher : Dispatcher σ)
    (initial : σ) :
    (dispatcher.deliver initial first).standing = (dispatcher.deliver initial second).standing := by
  rw [standing_deliver, standing_deliver, sameCalls]

/-- A dispatcher answers without regard to how many commands have not run so far. -/
theorem Dispatcher.foldl_answer (dispatcher : Dispatcher σ) (calls : List Call)
    (client : σ) (declined : Nat) :
    calls.foldl dispatcher.answer (client, declined) =
      ((calls.foldl dispatcher.answer (client, 0)).1,
        declined + (calls.foldl dispatcher.answer (client, 0)).2) := by
  induction calls generalizing client declined with
  | nil => rfl
  | cons call rest ih =>
    have first (declined : Nat) : dispatcher.answer (client, declined) call =
        ((dispatcher.answer (client, 0) call).1,
          declined + (dispatcher.answer (client, 0) call).2) := by
      by_cases ran : (dispatcher.execute call client).ran <;> simp [answer, ran]
    rw [List.foldl_cons, List.foldl_cons, first, ih, ih _ (dispatcher.answer (client, 0) call).2,
      Nat.add_assoc]

/-- Calls that are handed over in two parts, the second where the first has left the dispatcher,
come to what they come to in one. -/
theorem standing_deliver_split (dispatcher : Dispatcher σ) (initial : σ)
    {whole first second : List JournalEntry}
    (calls : journalCalls whole = journalCalls first ++ journalCalls second) :
    let ofFirst := dispatcher.deliver initial first
    let ofSecond := dispatcher.deliver ofFirst.state second
    (dispatcher.deliver initial whole).standing =
      (ofSecond.state, ofFirst.declined + ofSecond.declined) := by
  intro ofFirst ofSecond
  have firstStanding : ofFirst.standing = _ := standing_deliver dispatcher initial first
  have secondStanding : ofSecond.standing = _ := standing_deliver dispatcher ofFirst.state second
  rw [standing_deliver, calls, List.foldl_append, ← firstStanding, Delivery.standing,
    dispatcher.foldl_answer, ← secondStanding]
  rfl

/-- A dispatcher that answers as another does and logs nothing itself. -/
def Dispatcher.muted (dispatcher : Dispatcher σ) : Dispatcher σ where
  execute call client := { dispatcher.execute call client with notes := [] }

/-- A dispatcher answers alike whether or not it logs. -/
theorem Dispatcher.standing_muted (dispatcher : Dispatcher σ) (client : σ)
    (journal : List JournalEntry) :
    (dispatcher.muted.deliver client journal).standing =
      (dispatcher.deliver client journal).standing := by
  rw [standing_deliver, standing_deliver]
  rfl

/-- Without its notes, a dispatcher ends in the same state. -/
@[simp] theorem Dispatcher.state_deliver_muted (dispatcher : Dispatcher σ) (client : σ)
    (journal : List JournalEntry) :
    (dispatcher.muted.deliver client journal).state = (dispatcher.deliver client journal).state :=
  congrArg Prod.fst (dispatcher.standing_muted client journal)

/-- Without its notes, a dispatcher declines as many commands. -/
@[simp] theorem Dispatcher.declined_deliver_muted (dispatcher : Dispatcher σ) (client : σ)
    (journal : List JournalEntry) :
    (dispatcher.muted.deliver client journal).declined =
      (dispatcher.deliver client journal).declined :=
  congrArg Prod.snd (dispatcher.standing_muted client journal)

/-- Without the dispatcher, all that is logged is still logged. -/
theorem Dispatcher.sublist_log_muted (dispatcher : Dispatcher σ) (journal : List JournalEntry)
    {quiet full : Delivery σ} (sameState : quiet.state = full.state)
    (within : quiet.log.toList.Sublist full.log.toList) :
    (journal.foldl dispatcher.muted.deliverEntry quiet).log.toList.Sublist
      (journal.foldl dispatcher.deliverEntry full).log.toList := by
  induction journal generalizing quiet full with
  | nil => exact within
  | cons entry rest ih =>
    cases entry with
    | note record =>
      refine ih sameState ?_
      simpa [deliverEntry] using within
    | call made refusal =>
      let reply := dispatcher.execute made full.state
      have further : quiet.log.toList.Sublist (full.log.toList ++ reply.notes) :=
        within.trans (List.sublist_append_left ..)
      by_cases ran : reply.ran
      · refine ih ?_ ?_
        · simp [deliverEntry, muted, sameState, reply, ran]
        · simpa [deliverEntry, muted, sameState, reply, ran] using further
      · have warned := further.append (.refl [refusal])
        refine ih ?_ ?_
        · simp [deliverEntry, muted, sameState, reply, ran]
        · simpa [deliverEntry, muted, sameState, reply, ran] using warned

/-- Records are logged and do nothing else. -/
theorem Dispatcher.deliver_notes (dispatcher : Dispatcher σ) (records : List LogRecord)
    (delivery : Delivery σ) :
    (records.map JournalEntry.note).foldl dispatcher.deliverEntry delivery =
      { delivery with log := records.foldl Array.push delivery.log } := by
  induction records generalizing delivery with
  | nil => rfl
  | cons record rest ih => exact ih { delivery with log := delivery.log.push record }

/-- What is delivered is logged behind what was logged before. -/
theorem Dispatcher.log_deliverEntries (dispatcher : Dispatcher σ) (journal : List JournalEntry)
    (delivery : Delivery σ) :
    (journal.foldl dispatcher.deliverEntry delivery).log.toList =
      delivery.log.toList ++ (dispatcher.deliver delivery.state journal).log.toList := by
  induction journal generalizing delivery with
  | nil => simp [deliver]
  | cons entry rest ih =>
    rw [deliver, List.foldl_cons, List.foldl_cons, ih, ih (dispatcher.deliverEntry _ entry)]
    cases entry with
    | note record => simp [deliverEntry]
    | call made refusal =>
      by_cases ran : (dispatcher.execute made delivery.state).ran <;> simp [deliverEntry, ran]

/-- Two journals are logged one behind the other. -/
theorem Dispatcher.log_deliver_append (dispatcher : Dispatcher σ) (client : σ)
    (first second : List JournalEntry) :
    (dispatcher.deliver client (first ++ second)).log.toList =
      let delivery := dispatcher.deliver client first
      delivery.log.toList ++ (dispatcher.deliver delivery.state second).log.toList := by
  rw [deliver, List.foldl_append, log_deliverEntries]
  rfl

/-! The journals of steps and runs hold the calls that the steps and runs make. -/

/-- The calls in the journal of a repetition are those of its commands. -/
theorem journalCalls_repetition (trace : RepetitionTrace) (now : Time) :
    journalCalls (trace.journal now) = trace.commands.map (RepetitionTrace.callOf now) := by
  obtain ⟨sequence, iteration, outcome⟩ := trace
  rw [RepetitionTrace.journal, journalCalls_append, journalCalls_notes, List.append_nil]
  cases outcome with
  | missed due => rfl
  | failed fault => rfl
  | ran commands =>
    simp only [RepetitionTrace.commands, journalCalls_flatMap]
    rw [← List.flatMap_singleton' (commands.map _), List.flatMap_map]
    rfl

/-- The calls in the journal of a step are those of its repetitions. -/
theorem journalCalls_step (trace : StepTrace) : journalCalls trace.journal = trace.calls := by
  simp only [StepTrace.journal, journalCalls_append, journalCalls_flatMap, journalCalls_notes,
    journalCalls_repetition, StepTrace.calls]
  simp

/-- The calls in the journals of a run's steps are those of the run. -/
theorem journalCalls_steps (run : Scheduler.Run) :
    journalCalls (run.steps.flatMap StepTrace.journal) = run.calls := by
  simp only [journalCalls_flatMap, journalCalls_step, Scheduler.Run.calls]

/-- The records that close a run are no calls. -/
theorem journalCalls_run (run : Scheduler.Run) : journalCalls run.journal = run.calls := by
  rw [Scheduler.Run.journal, journalCalls_append, journalCalls_notes, List.append_nil,
    journalCalls_steps]

end TimedCommands
