import TimedCommands.Dispatch.Recording
import TimedCommands.Proofs.Schedule.Isolation

/-!
# Calls in the order of their times

A scheduler may be polled at any times, backwards as well, and still the times of its calls never
go back. Behind a step the next event lies ahead of it, so a step that comes no later than one
before it is quiet, and a step that makes calls makes them at a time that no step has reached
before (`lt_time_of_mem_calls_poll`).

A recording lists a time once for every stretch of calls at that time. As the calls come in the
order of their times, there is one stretch for each, so every time is listed once and in order
(`call_times_never_go_back`).
-/

namespace TimedCommands

/-- The calls of a step are made at its time. -/
theorem StepTrace.time_of_mem_calls {trace : StepTrace} {call : Call}
    (member : call ∈ trace.calls) : call.time = trace.time := by
  obtain ⟨repetition, -, made⟩ := List.mem_flatMap.mp member
  obtain ⟨command, -, rfl⟩ := List.mem_map.mp made
  rfl

namespace Scheduler

variable {scheduler : Scheduler} {latest : Time}

/-- What is quiet up to a time is so up to any earlier one. -/
theorem IsQuietUntil.mono {earlier : Time} (quiet : scheduler.IsQuietUntil latest)
    (before : earlier ≤ latest) : scheduler.IsQuietUntil earlier :=
  fun time isNext => UInt64.lt_of_le_of_lt before (quiet time isNext)

/-- The calls of steps are those of the first, and those of the others behind it. -/
theorem calls_poll_cons (scheduler : Scheduler) (now : Time) (later : List Time) :
    (scheduler.poll (now :: later)).calls =
      (scheduler.step now).2.calls ++ ((scheduler.step now).1.poll later).calls :=
  List.flatMap_cons

/-- A scheduler that is quiet until a time makes calls at later times only, whenever it is
polled. -/
theorem lt_time_of_mem_calls_poll (quiet : scheduler.IsQuietUntil latest) (times : List Time) :
    ∀ call ∈ (scheduler.poll times).calls, latest < call.time := by
  induction times generalizing scheduler latest with
  | nil => simp [Run.calls]
  | cons now later ih =>
    intro call member
    rw [calls_poll_cons] at member
    by_cases reached : now ≤ latest
    · -- The step comes no later than the quiet time, so it handles nothing.
      rw [step_of_isQuietUntil (quiet.mono reached), calls_quietStep, List.nil_append] at member
      exact ih quiet call member
    · have ahead : latest < now := UInt64.not_le.mp reached
      rcases List.mem_append.mp member with here | there
      · rwa [StepTrace.time_of_mem_calls here]
      · exact UInt64.lt_trans ahead (ih (isQuietUntil_step scheduler now) call there)

/-- The times of calls never go back, whatever the times of the steps. -/
theorem pairwise_time_calls_poll (scheduler : Scheduler) (times : List Time) :
    (scheduler.poll times).calls.Pairwise fun before after => before.time ≤ after.time := by
  induction times generalizing scheduler with
  | nil => exact .nil
  | cons now later ih =>
    rw [calls_poll_cons, List.pairwise_append]
    refine ⟨?_, ih _, ?_⟩
    · refine List.pairwise_of_forall_mem_list fun before isBefore after isAfter => ?_
      rw [StepTrace.time_of_mem_calls isBefore, StepTrace.time_of_mem_calls isAfter]
      exact UInt64.le_refl _
    · intro before isBefore after isAfter
      rw [StepTrace.time_of_mem_calls isBefore]
      exact UInt64.le_of_lt
        (lt_time_of_mem_calls_poll (isQuietUntil_step scheduler now) later after isAfter)

end Scheduler

/-- The loop that lists neighbours once keeps the last time that it has met and, in reverse, those
that it has listed. If times never go back, it goes on to list each of those that are left once. -/
theorem eraseRepsBy_loop_of_pairwise {first : Time} {rest : List Time} (listed : List Time)
    (ordered : (first :: rest).Pairwise (· ≤ ·)) :
    ∃ distinct, List.eraseRepsBy.loop (· == ·) first rest listed = listed.reverse ++ distinct ∧
      distinct.Pairwise (· < ·) ∧ ∀ time, time ∈ distinct ↔ time ∈ first :: rest := by
  induction rest generalizing first listed with
  | nil => exact ⟨[first], by simp [List.eraseRepsBy.loop], by simp, fun _ => Iff.rfl⟩
  | cons second rest ih =>
    have notLater : first ≤ second := List.rel_of_pairwise_cons ordered (by simp)
    by_cases same : first = second
    · subst same
      obtain ⟨distinct, eq, ascending, all⟩ := ih listed ordered.of_cons
      refine ⟨distinct, ?_, ascending, fun time => ?_⟩
      · simp [List.eraseRepsBy.loop, eq]
      · simp [all]
    · obtain ⟨distinct, eq, ascending, all⟩ := ih (first :: listed) ordered.of_cons
      have before : first < second := UInt64.lt_of_le_of_ne notLater same
      refine ⟨first :: distinct, ?_, List.pairwise_cons.mpr ⟨fun time member => ?_, ascending⟩,
        fun time => ?_⟩
      · have different : (first == second) = false := beq_eq_false_iff_ne.mpr same
        simp [List.eraseRepsBy.loop, different, eq]
      · rcases List.mem_cons.mp ((all time).mp member) with rfl | later
        · exact before
        · exact UInt64.lt_of_lt_of_le before (List.rel_of_pairwise_cons ordered.of_cons later)
      · simp [all]

/-- In ascending times, leaving out repeats in a row leaves each time once. -/
theorem eraseReps_of_pairwise {times : List Time} (ordered : times.Pairwise (· ≤ ·)) :
    times.eraseReps.Pairwise (· < ·) ∧ ∀ time, time ∈ times.eraseReps ↔ time ∈ times := by
  cases times with
  | nil => simp [List.eraseReps, List.eraseRepsBy]
  | cons first rest =>
    obtain ⟨distinct, eq, ascending, all⟩ := eraseRepsBy_loop_of_pairwise [] ordered
    have whole : (first :: rest).eraseReps = distinct := eq
    exact ⟨whole ▸ ascending, whole ▸ all⟩

namespace Recording

variable {recording : Recording}

/-- A recording keeps every call that it is handed, whatever it lets run. -/
theorem calls_deliver (willing : String → Bool) (recording : Recording)
    (journal : List JournalEntry) :
    ((dispatcher willing).deliver recording journal).state.calls.toList =
      recording.calls.toList ++ journalCalls journal := by
  have answered (calls : List Call) (standing : Recording × Nat) :
      (calls.foldl (dispatcher willing).answer standing).1.calls.toList =
        standing.1.calls.toList ++ calls := by
    induction calls generalizing standing with
    | nil => simp
    | cons call rest ih =>
      rw [List.foldl_cons, ih]
      simp [Dispatcher.answer, dispatcher, record]
  have standing := congrArg Prod.fst (standing_deliver (dispatcher willing) recording journal)
  exact (congrArg (·.calls.toList) standing).trans (answered _ _)

/-- The times of a recording whose calls came in the order of their times are listed once each, in
order. -/
theorem times_of_pairwise
    (ordered : recording.calls.toList.Pairwise fun before after => before.time ≤ after.time) :
    recording.times.Pairwise (· < ·) ∧
      ∀ time, time ∈ recording.times ↔ ∃ call ∈ recording.calls.toList, call.time = time := by
  obtain ⟨ascending, all⟩ := eraseReps_of_pairwise (List.pairwise_map.mpr ordered)
  exact ⟨ascending, fun time => (all time).trans List.mem_map⟩

end Recording

/-- The times of the calls of a scheduler never go back, whatever times it is polled at, with
repeats and backward steps among them. So a recording of its calls, begun at any point of the
polling, lists the times of its calls in strictly ascending order, each of them once and no
others. -/
theorem call_times_never_go_back {σ : Type} (arity : ArityLookup) (directives : List Directive)
    (earlier times : List Time) (dispatcher : Dispatcher σ) (initial : σ)
    (willing : String → Bool) :
    let scheduler := Scheduler.create arity directives
    let run := (scheduler.poll earlier).scheduler.poll times
    let recording := ((Recording.dispatcher willing).deliver .empty
      (run.steps.flatMap StepTrace.journal)).state
    ((scheduler.poll (earlier ++ times)).handed dispatcher initial).Pairwise
        (fun before after => before.time ≤ after.time) ∧
      recording.calls.toList = run.handed dispatcher initial ∧
      recording.times.Pairwise (· < ·) ∧ recording.times.Nodup ∧
      ∀ time, time ∈ recording.times ↔ ∃ call ∈ recording.calls.toList, call.time = time := by
  intro scheduler run recording
  have recorded : recording.calls.toList = run.calls := by
    have kept := Recording.calls_deliver willing .empty (run.steps.flatMap StepTrace.journal)
    rwa [journalCalls_steps] at kept
  have ordered : recording.calls.toList.Pairwise fun before after => before.time ≤ after.time :=
    recorded ▸ Scheduler.pairwise_time_calls_poll _ times
  obtain ⟨ascending, all⟩ := Recording.times_of_pairwise ordered
  refine ⟨?_, ?_, ascending, ascending.imp UInt64.ne_of_lt, all⟩
  · rw [Scheduler.Run.handed_eq_calls]
    exact Scheduler.pairwise_time_calls_poll scheduler _
  · rw [recorded, Scheduler.Run.handed_eq_calls]

end TimedCommands
