import TimedCommands.Proofs.Schedule.FiringOrder
import TimedCommands.Proofs.Schedule.Repetitions

/-!
# Exact times

Repetition `i` of a sequence is meant for `start + i * period`. Times end at `lastTime`, and a slot
that would come later is put there (`toNat_slotTime`). So repetitions run at their exact times as
long as these are times at all; those of which the exact time is none all run in the step of the
last time, several of one sequence among them (`repetitions_run_at_exact_times`).
-/

namespace TimedCommands

/-- The time that a repetition is meant for, which need not be one that a step can come at. -/
def ScheduledSequence.exactTime (sequence : ScheduledSequence) (iteration : Nat) : Nat :=
  sequence.start.toNat + iteration * sequence.period

/-- The time that a handled repetition was meant for. -/
def RepetitionTrace.exactTime (trace : RepetitionTrace) : Nat :=
  trace.sequence.exactTime trace.iteration

namespace ScheduledSequence

variable {sequence : ScheduledSequence} {earlier later : Nat}

/-- A slot is at its exact time, or at the last time if that is beyond it. -/
theorem toNat_slotTime_eq_exactTime (sequence : ScheduledSequence) (iteration : Nat) :
    (sequence.slotTime iteration).toNat = min (sequence.exactTime iteration) lastTime := by
  rw [toNat_slotTime, exactTime, Nat.mul_comm]

/-- With a period, exact times are ascending. -/
theorem exactTime_lt (apart : 1 ≤ sequence.period) (before : earlier < later) :
    sequence.exactTime earlier < sequence.exactTime later :=
  Nat.add_lt_add_left (Nat.mul_lt_mul_of_pos_right before apart) _

/-- Slots of one sequence come together only at the last time. -/
theorem lastTime_lt_exactTime (apart : 1 ≤ sequence.period) (before : earlier < later)
    (together : sequence.slotTime earlier = sequence.slotTime later) :
    lastTime < sequence.exactTime later := by
  have sameTime := congrArg UInt64.toNat together
  have exactBefore := exactTime_lt apart before
  rw [toNat_slotTime_eq_exactTime, toNat_slotTime_eq_exactTime] at sameTime
  omega

end ScheduledSequence

namespace Scheduler

variable {scheduler : Scheduler} {registry : Registry} {now : Time} {position index : Nat}
  {sequence : ScheduledSequence} {times : List Time} {trace : RepetitionTrace}
  {own : List RepetitionTrace}

/-- A repetition that is handled and not missed has its slot at the time of the step. -/
theorem slotTime_of_run (member : trace ∈ handleSequence registry now sequence)
    (run : trace.isMissed = false) :
    trace.sequence = sequence ∧ sequence.slotTime trace.iteration = now := by
  obtain ⟨iteration, due, rfl⟩ := List.mem_map.mp member
  have come := (ScheduledSequence.mem_dueIterations.mp due).2.2
  rw [isMissed_of_outcome rfl, decide_eq_false_iff_not, UInt64.not_lt] at run
  exact ⟨rfl, UInt64.le_antisymm come run⟩

/-- The repetitions at a position are none, or those of one sequence. -/
theorem repetitionsAt_eq_nil_or (scheduler : Scheduler) (position : Nat) (now : Time) :
    scheduler.repetitionsAt position now = [] ∨
      ∃ registry sequence,
        scheduler.repetitionsAt position now = handleSequence registry now sequence := by
  rw [repetitionsAt]
  cases (scheduler.afterDirectives now).sequences[position]? with
  | none => exact .inl rfl
  | some sequence => exact .inr ⟨_, sequence, rfl⟩

/-- What a step does for the sequence at a position is to handle it, if there is one. -/
theorem exists_handleSequence_of_share
    (isShare : (scheduler.shares position times)[index]? = some own) :
    ∃ now, times[index]? = some now ∧
      (own = [] ∨ ∃ registry sequence, own = handleSequence registry now sequence) := by
  induction times generalizing scheduler index with
  | nil => cases isShare
  | cons now later ih =>
    cases index with
    | zero =>
      cases isShare
      exact ⟨now, rfl, scheduler.repetitionsAt_eq_nil_or position now⟩
    | succ index => exact ih isShare

/-- Of two repetitions of one sequence that run in one step, the later is meant for no time that a
step can come at. -/
theorem pairwise_handleSequence (registry : Registry) (now : Time) (sequence : ScheduledSequence) :
    (handleSequence registry now sequence).Pairwise fun earlier later =>
      earlier.iteration < later.iteration ∧
        (earlier.isMissed = false → later.isMissed = false → 1 ≤ later.sequence.period →
          lastTime < later.exactTime) := by
  have ascending : (sequence.dueIterations now).Pairwise (· < ·) := List.pairwise_lt_range'
  rw [← iterations_handleSequence registry, List.pairwise_map] at ascending
  refine ascending.imp_of_mem fun {earlier later} isEarlier isLater before => ⟨before, ?_⟩
  intro earlierRun laterRun apart
  obtain ⟨-, earlierSlot⟩ := slotTime_of_run isEarlier earlierRun
  obtain ⟨same, laterSlot⟩ := slotTime_of_run isLater laterRun
  rw [same] at apart
  rw [RepetitionTrace.exactTime, same]
  exact ScheduledSequence.lastTime_lt_exactTime apart before (earlierSlot.trans laterSlot.symm)

/-- A step in which a repetition runs comes at its exact time, as far as times go. -/
theorem toNat_time_of_run {step : StepTrace}
    (isStep : (scheduler.poll times).steps[index]? = some step)
    (member : trace ∈ step.repetitions) (run : trace.isMissed = false) :
    step.time.toNat = min trace.exactTime lastTime := by
  rw [scheduler.repetitions_poll_eq_flatMap isStep (Nat.le_refl _)] at member
  obtain ⟨position, -, member⟩ := List.mem_flatMap.mp member
  obtain ⟨own, isShare⟩ : ∃ own, (scheduler.shares position times)[index]? = some own := by
    cases isShare : (scheduler.shares position times)[index]? with
    | none => simp [isShare] at member
    | some own => exact ⟨own, rfl⟩
  rw [isShare, Option.getD_some] at member
  obtain ⟨now, isTime, rfl | ⟨registry, sequence, rfl⟩⟩ := exists_handleSequence_of_share isShare
  · cases member
  · have isStepTime : times[index]? = some step.time := by
      rw [← scheduler.times_poll times, List.getElem?_map, isStep]
      rfl
    obtain rfl : now = step.time := Option.some.inj (isTime.symm.trans isStepTime)
    obtain ⟨same, slot⟩ := slotTime_of_run member run
    rw [RepetitionTrace.exactTime, same, ← slot, sequence.toNat_slotTime_eq_exactTime]

end Scheduler

/-- In whatever state and at whatever times a scheduler is polled, a repetition that runs does so in
a step at its exact time `start + i * period`, if that is a time at all, and otherwise in a step of
the last time. So if two repetitions of one sequence with a positive period run in the same step,
the exact time of the later one is beyond the last time. -/
theorem repetitions_run_at_exact_times (scheduler : Scheduler) (times : List Time) :
    let run := scheduler.poll times
    run.steps.map (·.time) = times ∧
      ∀ (index : Nat) (step : StepTrace), run.steps[index]? = some step →
        step.repetitions =
            (List.range run.scheduler.state.sequences.length).flatMap (fun position =>
              (scheduler.shares position times)[index]?.getD []) ∧
          (∀ trace ∈ step.repetitions, trace.isMissed = false →
            (trace.exactTime ≤ lastTime → step.time.toNat = trace.exactTime) ∧
              (lastTime < trace.exactTime → step.time.toNat = lastTime)) ∧
          ∀ position own, (scheduler.shares position times)[index]? = some own →
            own.Pairwise fun earlier later =>
              earlier.iteration < later.iteration ∧
                (earlier.isMissed = false → later.isMissed = false → 1 ≤ later.sequence.period →
                  lastTime < later.exactTime) := by
  intro run
  refine ⟨scheduler.times_poll times, fun index step isStep => ⟨?_, ?_, ?_⟩⟩
  · exact scheduler.repetitions_poll_eq_flatMap isStep (Nat.le_refl _)
  · intro trace member isRun
    have time := Scheduler.toNat_time_of_run isStep member isRun
    exact ⟨fun inRange => time.trans (Nat.min_eq_left inRange),
      fun beyond => time.trans (Nat.min_eq_right (Nat.le_of_lt beyond))⟩
  · intro position own isShare
    obtain ⟨now, -, rfl | ⟨registry, sequence, rfl⟩⟩ :=
      Scheduler.exists_handleSequence_of_share isShare
    · exact .nil
    · exact Scheduler.pairwise_handleSequence registry now sequence

/-- A group that is repeated three times, at every time from the last but one on. -/
def atTheEnd : List Directive :=
  [⟨18446744073709551614, "G", .createGroup⟩, ⟨18446744073709551614, "G", .executeSequence 3 1⟩]

/-- The repetitions 1 and 2 run in one step, at the last time, although 2 is meant for the time
after. -/
theorem repetitions_coincide_at_last_time :
    let scheduler := Scheduler.create (fun _ => none) atTheEnd
    ∃ step, (scheduler.poll [18446744073709551614, 18446744073709551615]).steps[1]? = some step ∧
      step.time.toNat = 18446744073709551615 ∧
      step.repetitions.map (fun trace => (trace.iteration, trace.isMissed, trace.exactTime)) =
        [(1, false, 18446744073709551615), (2, false, 18446744073709551616)] := by
  have ordered : firingOrder atTheEnd = atTheEnd :=
    InFiringOrder.firingOrder_eq (by unfold InFiringOrder; decide)
  rw [Scheduler.create, ordered]
  refine ⟨_, rfl, ?_⟩
  decide +kernel

end TimedCommands
