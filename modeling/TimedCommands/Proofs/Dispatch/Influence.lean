import TimedCommands.Proofs.Dispatch.Engine

/-!
# A dispatcher has no influence

Two engines that have the same directives and call different dispatchers go on alike: `Alike` says
that their schedulers are the same and that they have made the same calls, and whatever their
dispatchers answer, it holds again after every way of driving them (`Alike.drive`). What an answer
changes is a number that no engine looks at, that of the commands that did not run.
-/

namespace TimedCommands

variable {σ τ : Type}

/-- A dispatcher that answers as another does and keeps every call with its answer. -/
def Dispatcher.audited (dispatcher : Dispatcher σ) : Dispatcher (σ × List (Call × Bool)) where
  execute call state :=
    let reply := dispatcher.execute call state.1
    ⟨reply.ran, reply.notes, (reply.next, state.2 ++ [(call, reply.ran)])⟩

/-- How many calls were answered that their command did not run. -/
def refusals (answers : List (Call × Bool)) : Nat :=
  (answers.filter fun answer => !answer.2).length

/-- The answers that a dispatcher gives to calls, one after the other. -/
def Dispatcher.answers (dispatcher : Dispatcher σ) (client : σ) : List Call → List (Call × Bool)
  | [] => []
  | call :: rest =>
    let reply := dispatcher.execute call client
    (call, reply.ran) :: dispatcher.answers reply.next rest

/-- The answers to calls are answers to these calls, in order. -/
theorem Dispatcher.calls_answers (dispatcher : Dispatcher σ) (client : σ) (calls : List Call) :
    (dispatcher.answers client calls).map (·.1) = calls := by
  induction calls generalizing client with
  | nil => rfl
  | cons call rest ih => rw [answers, List.map_cons, ih]

/-- No more calls are refused than are made. -/
theorem Dispatcher.refusals_answers_le (dispatcher : Dispatcher σ) (client : σ)
    (calls : List Call) : refusals (dispatcher.answers client calls) ≤ calls.length := by
  calc refusals (dispatcher.answers client calls)
      ≤ (dispatcher.answers client calls).length := List.length_filter_le ..
    _ = ((dispatcher.answers client calls).map (·.1)).length := (List.length_map _).symm
    _ = calls.length := by rw [calls_answers]

/-- A dispatcher under audit keeps its answers, and the refusals among them are counted. -/
theorem Dispatcher.foldl_audited (dispatcher : Dispatcher σ) (calls : List Call) (client : σ)
    (kept : List (Call × Bool)) (declined : Nat) :
    let standing := calls.foldl dispatcher.audited.answer ((client, kept), declined)
    standing.1.2 = kept ++ dispatcher.answers client calls ∧
      standing.2 = declined + refusals (dispatcher.answers client calls) := by
  induction calls generalizing client kept declined with
  | nil => simp [answers, refusals]
  | cons call rest ih =>
    let reply := dispatcher.execute call client
    obtain ⟨sameKept, counted⟩ := ih reply.next (kept ++ [(call, reply.ran)])
      (if reply.ran then declined else declined + 1)
    refine ⟨sameKept.trans (by simp [answers, reply]), counted.trans ?_⟩
    by_cases ran : reply.ran <;> simp [answers, refusals, reply, ran, Nat.add_assoc, Nat.add_comm 1]

/-- An audited dispatcher keeps its answers to the calls of a journal, and the refusals among them
are counted. -/
theorem deliver_audited (dispatcher : Dispatcher σ) (client : σ) (kept : List (Call × Bool))
    (journal : List JournalEntry) :
    let delivery := dispatcher.audited.deliver (client, kept) journal
    let answers := dispatcher.answers client (journalCalls journal)
    delivery.state.2 = kept ++ answers ∧ delivery.declined = refusals answers := by
  intro delivery answers
  have standing : delivery.standing = _ :=
    standing_deliver dispatcher.audited (client, kept) journal
  obtain ⟨sameKept, counted⟩ := dispatcher.foldl_audited (journalCalls journal) client kept 0
  rw [← standing] at sameKept counted
  exact ⟨sameKept, counted.trans (Nat.zero_add _)⟩

namespace Scheduler.Run

/-- What a run reports as dispatched are its calls. -/
theorem dispatched_report (run : Run) (declined : Nat) :
    (run.report declined).dispatched = run.calls.length := by
  have summed (steps : List StepTrace) (before : Report) :
      (steps.foldl (fun report trace => report.add (trace.report 0)) before).dispatched =
        before.dispatched + (steps.flatMap StepTrace.calls).length := by
    induction steps generalizing before with
    | nil => rfl
    | cons trace rest ih =>
      rw [List.foldl_cons, ih, List.flatMap_cons, List.length_append, ← Nat.add_assoc]
      rfl
  exact (summed run.steps .zero).trans (Nat.zero_add _)

end Scheduler.Run

namespace Engine

/-- An audited engine that is driven in one way keeps the answers to the calls of its scheduler, and
reports the refusals among them. -/
theorem drive_audited (dispatcher : Dispatcher σ) (engine : Engine (σ × List (Call × Bool)))
    (polling : Polling) :
    let run := engine.scheduler.observe polling
    let answers := dispatcher.answers engine.client.1 run.calls
    let driven := engine.drive dispatcher.audited polling
    driven.1.scheduler = run.scheduler ∧ driven.1.client.2 = engine.client.2 ++ answers ∧
      driven.2 = ⟨run.steps.map (·.time), run.report (refusals answers)⟩ := by
  obtain ⟨scheduler, client, kept⟩ := engine
  intro run answers
  obtain ⟨sameKept, counted⟩ :=
    deliver_audited dispatcher client kept (run.steps.flatMap StepTrace.journal)
  rw [journalCalls_steps] at sameKept counted
  rw [drive_eq]
  exact ⟨rfl, sameKept, congrArg (Summary.mk _ <| run.report ·) counted⟩

/-- Two audited engines stand in the same place: their schedulers are the same, and they have made
the same calls. -/
structure Alike (here : Engine (σ × List (Call × Bool))) (there : Engine (τ × List (Call × Bool))) :
    Prop where
  scheduler : here.scheduler = there.scheduler
  calls : here.client.2.map (·.1) = there.client.2.map (·.1)

variable {here : Engine (σ × List (Call × Bool))} {there : Engine (τ × List (Call × Bool))}

/-- Engines that stand in the same place do so after being driven in the same way. -/
theorem Alike.drive (alike : Alike here there) (dispatcher : Dispatcher σ) (other : Dispatcher τ)
    (polling : Polling) :
    Alike (here.drive dispatcher.audited polling).1 (there.drive other.audited polling).1 := by
  obtain ⟨schedulerHere, keptHere, -⟩ := drive_audited dispatcher here polling
  obtain ⟨schedulerThere, keptThere, -⟩ := drive_audited other there polling
  constructor
  · rw [schedulerHere, schedulerThere, alike.scheduler]
  · rw [keptHere, keptThere, List.map_append, List.map_append, alike.calls,
      Dispatcher.calls_answers, Dispatcher.calls_answers, alike.scheduler]

/-- Engines that stand in the same place do so after being driven in the same ways. -/
theorem Alike.driveAll (alike : Alike here there) (dispatcher : Dispatcher σ) (other : Dispatcher τ)
    (pollings : List Polling) :
    Alike (here.driveAll dispatcher.audited pollings) (there.driveAll other.audited pollings) := by
  induction pollings generalizing here there with
  | nil => exact alike
  | cons polling rest ih => exact ih (alike.drive dispatcher other polling)

/-- Driving an engine gets its scheduler where it gets without a dispatcher. -/
theorem scheduler_drive (dispatcher : Dispatcher σ) (engine : Engine σ) (polling : Polling) :
    (engine.drive dispatcher polling).1.scheduler = engine.scheduler.drive polling := by
  rw [drive_eq]
  exact Scheduler.scheduler_observe _ _

/-- The scheduler of an engine gets where it gets without a dispatcher. -/
theorem scheduler_driveAll (dispatcher : Dispatcher σ) (engine : Engine σ)
    (pollings : List Polling) :
    (engine.driveAll dispatcher pollings).scheduler = engine.scheduler.driveAll pollings := by
  induction pollings generalizing engine with
  | nil => rfl
  | cons polling rest ih =>
    rw [driveAll, List.foldl_cons, ← driveAll, ih, scheduler_drive]
    rfl

end Engine

/-- The dispatcher has no influence on the engine, which calls it in the middle of its loops. An
engine that is driven in one way, after others in any order, comes to what its scheduler does and a
delivery of its journals. Two engines with the same directives that are driven in the same ways have
the same scheduler after each of them, whatever their dispatchers answer: the same groups, pending
directives and sequences, and so the same end and the same next event. They have made the same calls
in the same order, and the last way of driving them is summed up alike but for the number of
commands declined. That number is how many of its calls were answered so, and no more than were
dispatched. -/
theorem dispatcher_has_no_influence (dispatcher : Dispatcher σ) (other : Dispatcher τ) (client : σ)
    (otherClient : τ) (arity : ArityLookup) (directives : List Directive)
    (earlier : List Polling) (polling : Polling) :
    let scheduler := Scheduler.create arity directives
    let before := Engine.driveAll dispatcher.audited ⟨scheduler, client, []⟩ earlier
    let otherBefore := Engine.driveAll other.audited ⟨scheduler, otherClient, []⟩ earlier
    let driven := before.drive dispatcher.audited polling
    let otherDriven := otherBefore.drive other.audited polling
    let run := (scheduler.driveAll earlier).observe polling
    let delivery := dispatcher.audited.deliver before.client (run.steps.flatMap StepTrace.journal)
    driven = (⟨run.scheduler, delivery.state⟩,
        ⟨run.steps.map (·.time), run.report delivery.declined⟩) ∧
      driven.1.scheduler = otherDriven.1.scheduler ∧
      driven.1.client.2.map (·.1) = otherDriven.1.client.2.map (·.1) ∧
      driven.2.times = otherDriven.2.times ∧
      { driven.2.report with declined := 0 } = { otherDriven.2.report with declined := 0 } ∧
      ∃ answers otherAnswers,
        driven.1.client.2 = before.client.2 ++ answers ∧
        otherDriven.1.client.2 = otherBefore.client.2 ++ otherAnswers ∧
        answers.map (·.1) = otherAnswers.map (·.1) ∧
        driven.2.report.declined = refusals answers ∧
        otherDriven.2.report.declined = refusals otherAnswers ∧
        driven.2.report.declined ≤ driven.2.report.dispatched ∧
        otherDriven.2.report.declined ≤ otherDriven.2.report.dispatched := by
  intro scheduler before otherBefore driven otherDriven run delivery
  have alikeAtFirst : Engine.Alike (⟨scheduler, client, []⟩ : Engine (σ × List (Call × Bool)))
      (⟨scheduler, otherClient, []⟩ : Engine (τ × List (Call × Bool))) := ⟨rfl, rfl⟩
  have alike : Engine.Alike before otherBefore := alikeAtFirst.driveAll dispatcher other earlier
  have alikeAfter : Engine.Alike driven.1 otherDriven.1 := alike.drive dispatcher other polling
  have reached : before.scheduler = scheduler.driveAll earlier :=
    Engine.scheduler_driveAll dispatcher.audited _ earlier
  have comesTo : driven = (⟨run.scheduler, delivery.state⟩,
      ⟨run.steps.map (·.time), run.report delivery.declined⟩) := by
    have driven := Engine.drive_eq dispatcher.audited before polling
    rwa [reached] at driven
  obtain ⟨-, kept, summed⟩ := Engine.drive_audited dispatcher before polling
  obtain ⟨-, otherKept, otherSummed⟩ := Engine.drive_audited other otherBefore polling
  rw [reached] at kept summed
  rw [← alike.scheduler, reached] at otherKept otherSummed
  refine ⟨comesTo, alikeAfter.scheduler, alikeAfter.calls, ?_⟩
  rw [summed, otherSummed, Scheduler.Run.dispatched_report, Scheduler.Run.dispatched_report]
  exact ⟨rfl, rfl, _, _, kept, otherKept,
    by rw [Dispatcher.calls_answers, Dispatcher.calls_answers], rfl, rfl,
    dispatcher.refusals_answers_le _ _, other.refusals_answers_le _ _⟩

end TimedCommands
