import TimedCommands.Proofs.Schedule.Firing
import TimedCommands.Proofs.Schedule.FiringOrder
import TimedCommands.Proofs.Schedule.Slots
import TimedCommands.Schedule.Scheduler

/-!
# What a step does

A step of a scheduler whose directives stand in firing order, told without the order of
its work: it leaves the directives of later times, builds what the directives of its very
time build, and makes the calls of the repetitions whose slot is at its time.
-/

namespace TimedCommands

namespace Registry

/-- The calls that a repetition of a group makes at a time. One that does not resolve makes
none. -/
def repetitionCalls (registry : Registry) (name : GroupName) (iteration : Nat) (now : Time) :
    List Call :=
  match (registry.get name).bind fun group => group.resolve iteration with
  | .ok commands => commands.map (RepetitionTrace.callOf now)
  | .error _ => []

end Registry

namespace Scheduler

variable {arity : ArityLookup} {scheduler : Scheduler} {now : Time}

/-- What a step leaves pending is still in firing order. -/
theorem inFiringOrder_step (ordered : InFiringOrder scheduler.pending) (now : Time) :
    InFiringOrder (scheduler.step now).1.pending :=
  ordered.sublist (List.dropWhile_sublist _)

/-- A directive whose time is over changes nothing. -/
theorem handleDirective_of_missed {directive : Directive} (missed : directive.time < now)
    (state : RunState) : handleDirective arity now state directive = (state, .missed) := by
  simp [handleDirective, missed]

/-- A directive at its time changes the state if it succeeds, and nothing if it fails. -/
theorem handleDirective_state {directive : Directive} (due : directive.time = now)
    (state : RunState) :
    (handleDirective arity now state directive).1 = state.settle arity directive := by
  have punctual : ¬ directive.time < now := due ▸ UInt64.lt_irrefl _
  rw [handleDirective, if_neg punctual, RunState.settle]
  cases state.fire arity directive <;> rfl

/-- Of the directives that are due, those of the very time are carried out. -/
theorem handleDirectives_state {due : List Directive}
    (isDue : ∀ directive ∈ due, directive.time ≤ now) (state : RunState) :
    (handleDirectives arity now state due).1 = state.build arity (due.filter (·.time = now)) := by
  induction due generalizing state with
  | nil => rfl
  | cons directive rest ih =>
    have restDue : ∀ directive ∈ rest, directive.time ≤ now := fun other member =>
      isDue other (by simp [member])
    rw [handleDirectives]
    by_cases punctual : directive.time = now
    · simp [punctual, handleDirective_state punctual, ih restDue]
    · have missed : directive.time < now := UInt64.lt_of_le_of_ne (isDue directive (by simp)) punctual
      simp [punctual, handleDirective_of_missed missed, ih restDue]

/-- What a step builds before its repetitions. -/
def built (scheduler : Scheduler) (now : Time) : RunState :=
  scheduler.state.build scheduler.arity (scheduler.pending.filter (·.time = now))

/-- What the directives of a step build is built by those at its very time. -/
theorem handleDirectives_due (ordered : InFiringOrder scheduler.pending) (now : Time) :
    (handleDirectives scheduler.arity now scheduler.state
      (scheduler.pending.takeWhile (·.time ≤ now))).1 = scheduler.built now := by
  have isDue : ∀ directive ∈ scheduler.pending.takeWhile (·.time ≤ now), directive.time ≤ now := by
    intro directive member
    rw [ordered.takeWhile_due] at member
    simpa using (List.mem_filter.mp member).2
  rw [handleDirectives_state isDue, ordered.takeWhile_due, List.filter_filter, built]
  congr 2
  funext directive
  by_cases punctual : directive.time = now <;> simp [punctual]

/-- A step drops the directives up to its time, and lets the sequences catch up behind those at
it. -/
theorem step_scheduler (ordered : InFiringOrder scheduler.pending) (now : Time) :
    (scheduler.step now).1 =
      { scheduler with
        pending := scheduler.pending.filter (now < ·.time)
        state := { scheduler.built now with
          sequences :=
            (scheduler.built now).sequences.map fun sequence => sequence.advanceTo now } } := by
  rw [← ordered.dropWhile_due, ← handleDirectives_due ordered]
  rfl

/-- A repetition makes calls only in the step of its slot. -/
theorem calls_handleRepetition (registry : Registry) {sequence : ScheduledSequence}
    {iteration : Nat} (come : sequence.slotTime iteration ≤ now) :
    (RepetitionTrace.commands
        ⟨sequence, iteration, handleRepetition registry now sequence iteration⟩).map
        (RepetitionTrace.callOf now) =
      if sequence.slotTime iteration = now then
        registry.repetitionCalls sequence.group iteration now
      else [] := by
  by_cases punctual : sequence.slotTime iteration = now
  · have notMissed : ¬ sequence.slotTime iteration < now := punctual ▸ UInt64.lt_irrefl _
    simp only [handleRepetition, if_neg notMissed, if_pos punctual, Registry.repetitionCalls]
    cases (registry.get sequence.group).bind fun group => group.resolve iteration <;> rfl
  · have missed : sequence.slotTime iteration < now := UInt64.lt_of_le_of_ne come punctual
    simp [handleRepetition, missed, punctual, RepetitionTrace.commands]

/-- The calls of a sequence in a step are those of the repetitions whose slot is at its time. -/
theorem calls_handleSequence (registry : Registry) (now : Time) (sequence : ScheduledSequence) :
    ((handleSequence registry now sequence).flatMap fun repetition =>
        repetition.commands.map (RepetitionTrace.callOf now)) =
      ((sequence.dueIterations now).filter (sequence.slotTime · = now)).flatMap fun iteration =>
        registry.repetitionCalls sequence.group iteration now := by
  have come : ∀ iteration ∈ sequence.dueIterations now, sequence.slotTime iteration ≤ now :=
    fun iteration member => (ScheduledSequence.mem_dueIterations.mp member).2.2
  rw [handleSequence, List.flatMap_map]
  generalize sequence.dueIterations now = due at come ⊢
  induction due with
  | nil => rfl
  | cons iteration rest ih =>
    rw [List.flatMap_cons, calls_handleRepetition registry (come iteration (by simp)),
      ih fun other member => come other (by simp [member])]
    by_cases punctual : sequence.slotTime iteration = now <;> simp [punctual]

/-- The calls of a step are those of the repetitions whose slot is at its very time, sequence by
sequence. -/
theorem calls_step (ordered : InFiringOrder scheduler.pending) (now : Time) :
    (scheduler.step now).2.calls =
      (scheduler.built now).sequences.flatMap fun sequence =>
        ((sequence.dueIterations now).filter (sequence.slotTime · = now)).flatMap fun iteration =>
          (scheduler.built now).registry.repetitionCalls sequence.group iteration now := by
  rw [← handleDirectives_due ordered]
  simp only [StepTrace.calls, step, List.flatMap_assoc, calls_handleSequence]

end Scheduler

end TimedCommands
