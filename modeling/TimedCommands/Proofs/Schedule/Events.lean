import TimedCommands.Proofs.Schedule.Slots
import TimedCommands.Schedule.Scheduler

/-!
# Event times

The next event time of a scheduler says when something is to be handled again. A step before
that time does nothing (`step_of_isQuietUntil`), a step at or after it handles something and
leaves another scheduler (`step_of_not_isQuietUntil`), and behind every step the next event lies
ahead of it (`isQuietUntil_step`). None of this needs the directives to stand in firing order:
only the first of them can be due next, and no later one is looked at before it.
-/

namespace TimedCommands

namespace ScheduledSequence

variable {sequence : ScheduledSequence} {now time : Time}

/-- The next repetition is due at its slot, if any is left. -/
theorem nextDue?_eq_some_iff :
    sequence.nextDue? = some time ↔
      sequence.completed < sequence.total ∧ sequence.slotTime sequence.completed = time := by
  by_cases left : sequence.completed < sequence.total
  · simp [nextDue?, nextIteration?, isDone, left]
  · simp [nextDue?, nextIteration?, isDone, left, Nat.le_of_not_lt left]

/-- The next iteration is the one behind those that are completed, if any is left. -/
theorem nextIteration?_eq_some_iff {iteration : Nat} :
    sequence.nextIteration? = some iteration ↔
      sequence.completed < sequence.total ∧ sequence.completed = iteration := by
  by_cases left : sequence.completed < sequence.total
  · simp [nextIteration?, isDone, left]
  · simp [nextIteration?, isDone, left, Nat.le_of_not_lt left]

/-- Nothing is due any more exactly if the sequence is done. -/
theorem nextDue?_eq_none_iff : sequence.nextDue? = none ↔ sequence.isDone := by
  rw [nextDue?, nextIteration?]
  by_cases done : sequence.isDone <;> simp [done]

/-- Repetitions get behind exactly if the next one is due. -/
theorem completedAt_eq_iff :
    sequence.completedAt now = sequence.completed ↔ ∀ time ∈ sequence.nextDue?, now < time := by
  have grown := completed_le_completedAt sequence now
  have behind : sequence.completed < sequence.completedAt now ↔
      sequence.completed < sequence.total ∧ sequence.slotTime sequence.completed ≤ now := by
    simp [lt_completedAt_iff]
  constructor
  · rintro same time isNext
    obtain ⟨left, rfl⟩ := nextDue?_eq_some_iff.mp isNext
    rw [← UInt64.not_le]
    intro due
    have further := behind.mpr ⟨left, due⟩
    omega
  · intro ahead
    refine Nat.le_antisymm (Nat.le_of_not_lt fun further => ?_) grown
    obtain ⟨left, due⟩ := behind.mp further
    exact UInt64.not_le.mpr (ahead _ (nextDue?_eq_some_iff.mpr ⟨left, rfl⟩)) due

/-- While the next repetition lies ahead, none is due. -/
theorem dueIterations_of_ahead (ahead : ∀ time ∈ sequence.nextDue?, now < time) :
    sequence.dueIterations now = [] := by
  rw [dueIterations, completedAt_eq_iff.mpr ahead, Nat.sub_self]
  rfl

/-- A sequence whose next repetition is still ahead does not advance. -/
theorem advanceTo_of_ahead (ahead : ∀ time ∈ sequence.nextDue?, now < time) :
    sequence.advanceTo now = sequence := by
  rw [advanceTo, completedAt_eq_iff.mpr ahead]

/-- Once all repetitions that are due are behind, the next one is not due. -/
theorem lt_of_nextDue?_advanceTo (isNext : (sequence.advanceTo now).nextDue? = some time) :
    now < time := by
  obtain ⟨left, rfl⟩ := nextDue?_eq_some_iff.mp isNext
  rw [← UInt64.not_le]
  intro due
  have further : sequence.completedAt now < sequence.completedAt now :=
    lt_completedAt_iff.mpr (.inr ⟨left, due⟩)
  exact Nat.lt_irrefl _ further

end ScheduledSequence

/-- Whether anything was handled in a step. -/
def StepTrace.isBusy (trace : StepTrace) : Bool :=
  !(trace.directives.isEmpty && trace.repetitions.isEmpty)

namespace Scheduler

variable {scheduler : Scheduler} {now time : Time}

/-- The least of several times is ahead exactly if all of them are. -/
theorem lt_min?_iff {times : List Time} :
    (∀ time ∈ times.min?, now < time) ↔ ∀ time ∈ times, now < time := by
  constructor
  · intro ahead time member
    cases least : times.min? with
    | none =>
      rw [List.min?_eq_none_iff.mp least] at member
      cases member
    | some first =>
      have notEarlier := (List.min?_eq_some_iff.mp least).2 time member
      exact UInt64.lt_of_lt_of_le (ahead first least) notEarlier
  · intro ahead time least
    exact ahead time (List.min?_eq_some_iff.mp least).1

/-- Nothing is to be handled up to a time. -/
def IsQuietUntil (scheduler : Scheduler) (now : Time) : Prop :=
  ∀ time ∈ scheduler.nextEventTime?, now < time

/-- Nothing happens up to a time if the first directive and all next repetitions are ahead of it. -/
theorem isQuietUntil_iff :
    scheduler.IsQuietUntil now ↔
      (∀ directive ∈ scheduler.pending.head?, now < directive.time) ∧
        ∀ sequence ∈ scheduler.state.sequences, ∀ time ∈ sequence.nextDue?, now < time := by
  rw [IsQuietUntil, nextEventTime?, lt_min?_iff, List.forall_mem_append]
  simp only [List.mem_filterMap, Option.mem_toList, Option.mem_def, Option.map_eq_some_iff]
  constructor
  · rintro ⟨directives, sequences⟩
    exact ⟨fun directive isFirst => directives _ ⟨directive, isFirst, rfl⟩,
      fun sequence member time isNext => sequences time ⟨sequence, member, isNext⟩⟩
  · rintro ⟨directives, sequences⟩
    refine ⟨?_, fun time ⟨sequence, member, isNext⟩ => sequences sequence member time isNext⟩
    rintro _ ⟨directive, isFirst, rfl⟩
    exact directives directive isFirst

/-- No event is ahead exactly if the scheduler is finished. -/
theorem nextEventTime?_eq_none_iff : scheduler.nextEventTime? = none ↔ scheduler.isFinished := by
  simp [nextEventTime?, isFinished, List.min?_eq_none_iff, ScheduledSequence.nextDue?_eq_none_iff]

/-- A step before the time of the first pending directive handles repetitions only. -/
theorem step_of_directives_ahead
    (ahead : ∀ directive ∈ scheduler.pending.head?, now < directive.time) :
    scheduler.step now =
      ({ scheduler with
          state := { scheduler.state with
            sequences := scheduler.state.sequences.map fun sequence => sequence.advanceTo now } },
        ⟨now, [], scheduler.state.sequences.flatMap
          (handleSequence scheduler.state.registry now)⟩) := by
  obtain ⟨arity, pending, state⟩ := scheduler
  cases pending with
  | nil => rfl
  | cons first rest =>
    have notDue : ¬ first.time ≤ now := UInt64.not_le.mpr (ahead first rfl)
    simp [step, notDue, handleDirectives]

/-- A step that handles nothing. -/
def quietStep (now : Time) : StepTrace := ⟨now, [], []⟩

/-- A step before the next event handles nothing. -/
theorem step_of_isQuietUntil (quiet : scheduler.IsQuietUntil now) :
    scheduler.step now = (scheduler, quietStep now) := by
  obtain ⟨directives, sequences⟩ := isQuietUntil_iff.mp quiet
  have still : scheduler.state.sequences.map (fun sequence => sequence.advanceTo now) =
      scheduler.state.sequences := by
    refine (List.map_congr_left fun sequence member => ?_).trans (List.map_id _)
    exact ScheduledSequence.advanceTo_of_ahead (sequences sequence member)
  have silent : scheduler.state.sequences.flatMap
      (handleSequence scheduler.state.registry now) = [] := by
    rw [List.flatMap_eq_nil_iff]
    intro sequence member
    rw [handleSequence, ScheduledSequence.dueIterations_of_ahead (sequences sequence member)]
    rfl
  rw [step_of_directives_ahead directives, still, silent]
  rfl

/-- A step that handles a repetition is busy. -/
theorem isBusy_of_mem_repetitions {trace : StepTrace} {repetition : RepetitionTrace}
    (member : repetition ∈ trace.repetitions) : trace.isBusy := by
  have some : trace.repetitions ≠ [] := List.ne_nil_of_mem member
  simp [StepTrace.isBusy, some]

/-- A step at or after the next event handles something, and leaves another scheduler. -/
theorem step_of_not_isQuietUntil (event : ¬ scheduler.IsQuietUntil now) :
    (scheduler.step now).1 ≠ scheduler ∧ (scheduler.step now).2.isBusy := by
  by_cases ahead : ∀ directive ∈ scheduler.pending.head?, now < directive.time
  · -- No directive is due, so a sequence gets further.
    rw [isQuietUntil_iff, not_and] at event
    have sequences := event ahead
    push Not at sequences
    obtain ⟨sequence, member, time, isNext, due⟩ := sequences
    have further : sequence.completedAt now ≠ sequence.completed := fun same =>
      due (ScheduledSequence.completedAt_eq_iff.mp same time isNext)
    rw [step_of_directives_ahead ahead]
    constructor
    · intro same
      have still : scheduler.state.sequences.map (fun sequence => sequence.advanceTo now) =
          scheduler.state.sequences.map id := by
        rw [List.map_id]
        exact congrArg (·.state.sequences) same
      exact further (congrArg (·.completed) (List.map_inj_left.mp still sequence member))
    · have left : sequence.completed ∈ sequence.dueIterations now := by
        have grown := sequence.completed_le_completedAt now
        rw [ScheduledSequence.dueIterations, List.mem_range'_1]
        omega
      exact isBusy_of_mem_repetitions
        (List.mem_flatMap.mpr ⟨sequence, member, List.mem_map.mpr ⟨_, left, rfl⟩⟩)
  · -- The first directive is due, so fewer are pending.
    push Not at ahead
    obtain ⟨first, isFirst, notAhead⟩ := ahead
    obtain ⟨rest, pending⟩ := List.head?_eq_some_iff.mp isFirst
    have due : first.time ≤ now := UInt64.not_lt.mp notAhead
    constructor
    · intro same
      have shorter : (scheduler.step now).1.pending.length < scheduler.pending.length := by
        have tail : (scheduler.step now).1.pending = rest.dropWhile (·.time ≤ now) := by
          simp [step, pending, due]
        rw [tail, pending]
        exact Nat.lt_succ_of_le (List.dropWhile_sublist _).length_le
      exact Nat.ne_of_lt shorter (congrArg (·.pending.length) same)
    · have some : (scheduler.step now).2.directives ≠ [] := by
        simp [step, pending, due, handleDirectives]
      simp [StepTrace.isBusy, some]

/-- A step leaves a scheduler as it is exactly if nothing happens up to its time. -/
theorem step_eq_self_iff : (scheduler.step now).1 = scheduler ↔ scheduler.IsQuietUntil now :=
  ⟨fun same => Classical.not_not.mp fun event => (step_of_not_isQuietUntil event).1 same,
    fun quiet => congrArg Prod.fst (step_of_isQuietUntil quiet)⟩

/-- Behind a step, the next event lies ahead of it. -/
theorem isQuietUntil_step (scheduler : Scheduler) (now : Time) :
    (scheduler.step now).1.IsQuietUntil now := by
  rw [isQuietUntil_iff]
  constructor
  · intro directive isFirst
    have notDue := List.head?_dropWhile_not
      (fun directive : Directive => decide (directive.time ≤ now)) scheduler.pending
    have pending : (scheduler.step now).1.pending = scheduler.pending.dropWhile (·.time ≤ now) :=
      rfl
    rw [← pending, Option.mem_def.mp isFirst] at notDue
    simpa using notDue
  · rintro _ member time isNext
    obtain ⟨sequence, -, rfl⟩ := List.mem_map.mp member
    exact ScheduledSequence.lt_of_nextDue?_advanceTo isNext

end Scheduler

end TimedCommands
