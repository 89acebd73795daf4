import Mathlib.Data.List.TakeWhile
import TimedCommands.Proofs.Schedule.Handling
import TimedCommands.Proofs.Schedule.Machine

/-!
# Sequences that a step starts

The directives of a step start sequences behind all those that were started before
(`exists_started`), so a sequence keeps its position for good. A new sequence starts at the time of
the step, nothing of it is behind, and its numbers fit, whatever the directives are: those that
were never validated are checked when they fire.
-/

namespace TimedCommands

namespace ScheduledSequence

variable {sequence : ScheduledSequence} {iteration : Nat} {times : List Time}

/-- The sequence after the steps at a list of times. -/
def advanceAll (sequence : ScheduledSequence) (times : List Time) : ScheduledSequence :=
  times.foldl advanceTo sequence

/-- A sequence catches up time by time. -/
@[simp] theorem advanceAll_cons (sequence : ScheduledSequence) (now : Time) (later : List Time) :
    sequence.advanceAll (now :: later) = (sequence.advanceTo now).advanceAll later := rfl

/-- Steps change nothing but how far a sequence has come. -/
theorem advanceAll_eq (sequence : ScheduledSequence) (times : List Time) :
    sequence.advanceAll times =
      { sequence with completed := (sequence.advanceAll times).completed } := by
  induction times generalizing sequence with
  | nil => rfl
  | cons now later ih =>
    rw [advanceAll_cons, ih]
    rfl

/-- A repetition is behind after steps if it was before or if one of them reaches its slot. -/
theorem lt_completed_advanceAll_iff :
    iteration < (sequence.advanceAll times).completed ↔
      iteration < sequence.completed ∨
        (iteration < sequence.total ∧ ∃ now ∈ times, sequence.slotTime iteration ≤ now) := by
  induction times generalizing sequence with
  | nil => simp [advanceAll]
  | cons now later ih =>
    have first : iteration < (sequence.advanceTo now).completed ↔ _ := lt_completedAt_iff
    have sameTotal : (sequence.advanceTo now).total = sequence.total := rfl
    have sameSlot : (sequence.advanceTo now).slotTime = sequence.slotTime := rfl
    rw [advanceAll_cons, ih, first, sameTotal, sameSlot]
    simp only [List.mem_cons, exists_eq_or_imp]
    tauto

/-- A sequence does not go back over any number of steps. -/
theorem completed_le_advanceAll (sequence : ScheduledSequence) (times : List Time) :
    sequence.completed ≤ (sequence.advanceAll times).completed := by
  by_contra fewer
  have behind : (sequence.advanceAll times).completed < (sequence.advanceAll times).completed :=
    lt_completed_advanceAll_iff.mpr (.inl (Nat.lt_of_not_le fewer))
  exact Nat.lt_irrefl _ behind

end ScheduledSequence

namespace RunState

variable {arity : ArityLookup} {state : RunState} {directive : Directive}

/-- A directive that succeeds has fired in some state. -/
theorem exists_fire_of_mem_succeeding {directives : List Directive}
    (succeeds : directive ∈ succeeding arity state directives) :
    ∃ before result, fire arity before directive = .ok result := by
  induction directives generalizing state with
  | nil => cases succeeds
  | cons first rest ih =>
    rw [succeeding] at succeeds
    cases fired : state.fire arity first with
    | error fault => exact ih (by simpa [fired] using succeeds)
    | ok result =>
      rcases List.mem_cons.mp (by simpa [fired] using succeeds) with rfl | later
      · exact ⟨state, result, fired⟩
      · exact ih later

/-- Firing lets no sequence start whose numbers do not fit. -/
theorem inRange_of_fire {result : RunState × List Effect} {sequence : ScheduledSequence}
    (fired : state.fire arity directive = .ok result)
    (starts : directive.sequence? = some sequence) : sequence.InRange := by
  obtain ⟨time, name, action⟩ := directive
  cases action with
  | executeSequence total period =>
    cases starts
    obtain ⟨group, -, rest⟩ := bind_eq_ok_iff.mp fired
    obtain ⟨repetitions, counted, rest⟩ := bind_eq_ok_iff.mp rest
    obtain ⟨spacing, spaced, -⟩ := bind_eq_ok_iff.mp rest
    obtain ⟨⟨positive, fits⟩, -⟩ := checkTotal_eq_ok_iff.mp counted
    have notNegative := (checkPeriod_eq_ok_iff.mp spaced).1
    have bounded := Int64.toInt_le period
    refine ⟨?_, ?_, ?_, Nat.zero_le _⟩
    · change 1 ≤ total.toInt.toNat
      omega
    · change ((total.toInt.toNat : Nat) : Int) ≤ maxCount
      omega
    · change ((period.toInt.toNat : Nat) : Int) ≤ _
      rwa [Int.toNat_of_nonneg notNegative]
  | _ => cases starts

end RunState

namespace Scheduler

variable {scheduler : Scheduler} {now : Time} {position : Nat} {sequence : ScheduledSequence}

/-- What the directives of a step leave, before any repetition is handled. -/
def afterDirectives (scheduler : Scheduler) (now : Time) : RunState :=
  (handleDirectives scheduler.arity now scheduler.state
    (scheduler.pending.takeWhile (·.time ≤ now))).1

/-- The sequences behind a step are those behind its directives, caught up. -/
theorem sequences_step (scheduler : Scheduler) (now : Time) :
    (scheduler.step now).1.state.sequences =
      (scheduler.afterDirectives now).sequences.map (·.advanceTo now) := rfl

/-- The repetitions of a step are those of the sequences behind its directives, one after the
other. -/
theorem repetitions_step (scheduler : Scheduler) (now : Time) :
    (scheduler.step now).2.repetitions =
      (scheduler.afterDirectives now).sequences.flatMap
        (handleSequence (scheduler.afterDirectives now).registry now) := rfl

/-- The directives of a step that are of its time are carried out, one after the other. -/
theorem afterDirectives_eq (scheduler : Scheduler) (now : Time) :
    scheduler.afterDirectives now =
      scheduler.state.build scheduler.arity
        ((scheduler.pending.takeWhile (·.time ≤ now)).filter (·.time = now)) := by
  apply handleDirectives_state
  intro directive member
  simpa using List.mem_takeWhile_imp member

/-- The directives of a step start sequences behind all others. They start now, nothing of them is
behind, and their numbers fit. -/
theorem exists_started (scheduler : Scheduler) (now : Time) :
    ∃ started, (scheduler.afterDirectives now).sequences = scheduler.state.sequences ++ started ∧
      ∀ sequence ∈ started, sequence.start = now ∧ sequence.completed = 0 ∧ sequence.InRange := by
  rw [afterDirectives_eq, RunState.sequences_build]
  refine ⟨_, rfl, ?_⟩
  intro sequence member
  obtain ⟨directive, succeeds, starts⟩ := List.mem_filterMap.mp member
  obtain ⟨-, start, fresh⟩ := Directive.start_of_sequence? starts
  obtain ⟨before, result, fired⟩ := RunState.exists_fire_of_mem_succeeding succeeds
  have fires := RunState.mem_of_mem_succeeding succeeds
  have punctual : directive.time = now := by simpa using (List.mem_filter.mp fires).2
  exact ⟨start.trans punctual, fresh, RunState.inRange_of_fire fired starts⟩

/-- No sequence is lost in a step. -/
theorem length_sequences_step (scheduler : Scheduler) (now : Time) :
    scheduler.state.sequences.length ≤ (scheduler.step now).1.state.sequences.length := by
  obtain ⟨started, sequences, -⟩ := scheduler.exists_started now
  rw [sequences_step, sequences]
  simp

/-- A sequence keeps its position while others are started. -/
theorem getElem?_afterDirectives (found : scheduler.state.sequences[position]? = some sequence)
    (now : Time) : (scheduler.afterDirectives now).sequences[position]? = some sequence := by
  obtain ⟨started, sequences, -⟩ := scheduler.exists_started now
  rw [sequences, List.getElem?_append_left (List.getElem?_eq_some_iff.mp found).1, found]

/-- What stands behind the sequences of before once a step is over was started in it. -/
theorem started_of_getElem?_step (new : scheduler.state.sequences.length ≤ position)
    (stands : (scheduler.step now).1.state.sequences[position]? = some sequence) :
    ∃ fresh, (scheduler.afterDirectives now).sequences[position]? = some fresh ∧
      fresh.start = now ∧ fresh.completed = 0 ∧ fresh.InRange ∧ fresh.advanceTo now = sequence := by
  obtain ⟨started, sequences, areFresh⟩ := scheduler.exists_started now
  rw [sequences_step, List.getElem?_map, Option.map_eq_some_iff] at stands
  obtain ⟨fresh, found, advanced⟩ := stands
  have isNew : fresh ∈ started := by
    rw [sequences, List.getElem?_append_right new] at found
    exact List.mem_of_getElem? found
  obtain ⟨start, unhandled, inRange⟩ := areFresh fresh isNew
  exact ⟨fresh, found, start, unhandled, inRange, advanced⟩

/-- A step takes the sequence at a position as far as its time reaches. -/
theorem getElem?_step
    (stands : (scheduler.afterDirectives now).sequences[position]? = some sequence) :
    (scheduler.step now).1.state.sequences[position]? = some (sequence.advanceTo now) := by
  rw [sequences_step, List.getElem?_map, stands]
  rfl

/-- However a scheduler is polled, a sequence keeps its position and gets as far as it would
alone. -/
theorem getElem?_poll (stands : scheduler.state.sequences[position]? = some sequence)
    (times : List Time) :
    (scheduler.poll times).scheduler.state.sequences[position]? =
      some (sequence.advanceAll times) := by
  induction times generalizing scheduler sequence with
  | nil => exact stands
  | cons now later ih => exact ih (getElem?_step (getElem?_afterDirectives stands now))

end Scheduler

end TimedCommands
