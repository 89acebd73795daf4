import TimedCommands.Proofs.Directive.Operations
import TimedCommands.Proofs.Schedule.Faults
import TimedCommands.Proofs.Schedule.Started

/-!
# Schedulers that can be reached

A scheduler may be polled step by step and run over windows, in any order (`Scheduler.drive`). Its
parts then fit together, whatever directives it was given: `Scheduler.Sound` holds of a new
scheduler, and a step preserves it. The numbers of a sequence fit, so its counter never
overflows; its group exists, so a repetition never fails for want of it; and the groups are those
that the operations of directives have built, so none is filed under another's name
(`scheduler_invariant`).
-/

namespace TimedCommands

namespace RunState

variable {arity : ArityLookup} {given : List Directive} {state changed : RunState}
  {directive : Directive} {effects : List Effect}

/-- What the given directives can have built: sequences whose numbers fit and whose groups exist,
and groups that their operations have built. -/
structure Sound (arity : ArityLookup) (given : List Directive) (state : RunState) : Prop where
  inRange : ∀ sequence ∈ state.sequences, sequence.InRange
  grouped : ∀ sequence ∈ state.sequences, sequence.group ∈ state.registry.names
  built : ∃ fired, fired ⊆ given ∧
    state.registry = Registry.empty.after arity (fired.flatMap Directive.operations)

/-- Before anything is built, the state is sound. -/
theorem sound_empty (arity : ArityLookup) (given : List Directive) : empty.Sound arity given where
  inRange := by simp [empty]
  grouped := by simp [empty]
  built := ⟨[], List.nil_subset _, rfl⟩

/-- No group is lost when a directive fires. -/
theorem names_subset_of_fire (fired : state.fire arity directive = .ok (changed, effects)) :
    state.registry.names ⊆ changed.registry.names := by
  rw [registry_of_fire fired, Registry.names_after]
  exact List.subset_append_left ..

/-- A given directive that fires leaves a sound state. -/
theorem Sound.fire (sound : state.Sound arity given) (isGiven : directive ∈ given)
    (fired : state.fire arity directive = .ok (changed, effects)) : changed.Sound arity given where
  inRange := by
    intro sequence member
    rw [sequences_of_fire fired] at member
    rcases List.mem_append.mp member with earlier | started
    · exact sound.inRange sequence earlier
    · exact inRange_of_fire fired (Option.mem_toList.mp started)
  grouped := by
    intro sequence member
    rw [sequences_of_fire fired] at member
    rcases List.mem_append.mp member with earlier | started
    · exact names_subset_of_fire fired (sound.grouped sequence earlier)
    · have starts : directive.sequence? = some sequence := Option.mem_toList.mp started
      rw [(Directive.start_of_sequence? starts).1]
      refine names_subset_of_fire fired ?_
      cases fired_of_fire fired with
      | created creates made => simp [Directive.sequence?, creates] at starts
      | edited other keeps noSequence found named => simp [noSequence] at starts
      | scheduled starts found => exact Registry.mem_names_of_get found
  built := by
    obtain ⟨before, areGiven, built⟩ := sound.built
    refine ⟨before ++ [directive], ?_, ?_⟩
    · exact List.append_subset.mpr ⟨areGiven, List.cons_subset.mpr ⟨isGiven, List.nil_subset _⟩⟩
    · rw [registry_of_fire fired, built, ← Registry.after_append, List.flatMap_append,
        List.flatMap_singleton]

/-- Given directives leave a sound state, in whatever order they fire. -/
theorem Sound.build (sound : state.Sound arity given) {directives : List Directive}
    (areGiven : directives ⊆ given) : (state.build arity directives).Sound arity given := by
  induction directives generalizing state with
  | nil => exact sound
  | cons directive rest ih =>
    obtain ⟨isGiven, restGiven⟩ := List.cons_subset.mp areGiven
    rw [build_cons, settle]
    cases fired : state.fire arity directive with
    | error fault => exact ih sound restGiven
    | ok result => exact ih (sound.fire isGiven fired) restGiven

/-- Sequences stay sound however far they get. -/
theorem Sound.advance (sound : state.Sound arity given) (now : Time) :
    Sound arity given
      { state with sequences := state.sequences.map fun sequence => sequence.advanceTo now } where
  inRange := by
    intro sequence member
    obtain ⟨before, isBefore, rfl⟩ := List.mem_map.mp member
    exact (sound.inRange before isBefore).advanceTo now
  grouped := by
    intro sequence member
    obtain ⟨before, isBefore, rfl⟩ := List.mem_map.mp member
    exact sound.grouped before isBefore
  built := sound.built

end RunState

namespace Scheduler

variable {given : List Directive} {scheduler : Scheduler} {now : Time}

/-- A scheduler of the given directives: those that are left are among them, and they have built
what there is. -/
structure Sound (given : List Directive) (scheduler : Scheduler) : Prop where
  pending : scheduler.pending ⊆ given
  state : scheduler.state.Sound scheduler.arity given

/-- A new scheduler is sound. -/
theorem sound_create (arity : ArityLookup) (directives : List Directive) :
    (create arity directives).Sound directives where
  pending := (firingOrder_perm directives).subset
  state := RunState.sound_empty arity directives

/-- A sound scheduler is in a sound state when its repetitions begin. -/
theorem Sound.afterDirectives (sound : scheduler.Sound given) (now : Time) :
    (scheduler.afterDirectives now).Sound scheduler.arity given := by
  rw [afterDirectives_eq]
  refine sound.state.build fun directive member => ?_
  exact sound.pending ((List.takeWhile_prefix _).subset (List.mem_filter.mp member).1)

/-- A step leaves a sound scheduler. -/
theorem Sound.step (sound : scheduler.Sound given) (now : Time) :
    (scheduler.step now).1.Sound given where
  pending := fun _ member => sound.pending ((List.dropWhile_suffix _).subset member)
  state := (sound.afterDirectives now).advance now

/-- Any number of steps leave a sound scheduler. -/
theorem Sound.poll (sound : scheduler.Sound given) (times : List Time) :
    (scheduler.poll times).scheduler.Sound given := by
  induction times generalizing scheduler with
  | nil => exact sound
  | cons now later ih => exact ih (sound.step now)

/-- In a step of a sound scheduler no repetition misses its group. -/
theorem Sound.outcome_step (sound : scheduler.Sound given) {trace : RepetitionTrace}
    (member : trace ∈ (scheduler.step now).2.repetitions) (name : GroupName) :
    trace.outcome ≠ .failed (.groupNotFound name) := by
  rw [repetitions_step] at member
  obtain ⟨sequence, stands, handled⟩ := List.mem_flatMap.mp member
  obtain ⟨iteration, -, rfl⟩ := List.mem_map.mp handled
  obtain ⟨group, found⟩ :=
    Registry.exists_get_of_mem_names ((sound.afterDirectives now).grouped sequence stands)
  intro failed
  change handleRepetition _ now sequence iteration = _ at failed
  rw [handleRepetition, found] at failed
  split at failed
  · cases failed
  · split at failed
    next => cases failed
    next resolved =>
      cases failed
      exact Bool.false_ne_true (Group.isSlotFault_of_resolve resolved)

/-- No repetition of a sound scheduler is for a group that is missing. -/
theorem Sound.outcome_poll (sound : scheduler.Sound given) {times : List Time} {step : StepTrace}
    (isStep : step ∈ (scheduler.poll times).steps) {trace : RepetitionTrace}
    (member : trace ∈ step.repetitions) (name : GroupName) :
    trace.outcome ≠ .failed (.groupNotFound name) := by
  induction times generalizing scheduler with
  | nil => cases isStep
  | cons now later ih =>
    rw [poll_cons] at isStep
    rcases List.mem_cons.mp isStep with isFirst | isLater
    · exact sound.outcome_step (isFirst ▸ member) name
    · exact ih (sound.step now) isLater

end Scheduler

/-- A way of polling a scheduler: one step, or a run over a window. -/
inductive Polling where
  | step (now : Time)
  | run (start stop : Time)
  deriving Repr, DecidableEq

/-- The times that are polled, if nothing ends a run before its window does. -/
def Polling.times : Polling → List Time
  | .step now => [now]
  | .run start stop => window start stop

namespace Scheduler

variable {given : List Directive} {scheduler : Scheduler}

/-- The scheduler after one way of polling it. -/
def drive (scheduler : Scheduler) : Polling → Scheduler
  | .step now => (scheduler.step now).1
  | .run start stop => (scheduler.run start stop).scheduler

/-- What a scheduler does when it is polled in one way. -/
def observe (scheduler : Scheduler) : Polling → Run
  | .step now => ⟨(scheduler.step now).1, [(scheduler.step now).2]⟩
  | .run start stop => scheduler.run start stop

/-- Being observed does not change where a scheduler gets. -/
theorem scheduler_observe (scheduler : Scheduler) (polling : Polling) :
    (scheduler.observe polling).scheduler = scheduler.drive polling := by
  cases polling <;> rfl

/-- The scheduler after being polled in several ways, one after the other. -/
def driveAll (scheduler : Scheduler) (pollings : List Polling) : Scheduler :=
  pollings.foldl drive scheduler

/-- However a scheduler is driven, it gets where steps at those times get it. -/
theorem drive_eq_poll (scheduler : Scheduler) (polling : Polling) :
    scheduler.drive polling = (scheduler.poll polling.times).scheduler := by
  cases polling with
  | step now => rfl
  | run start stop =>
    obtain ⟨quiet, polled⟩ := poll_window scheduler start stop
    rw [Polling.times, polled, drive]

/-- However it is polled, a scheduler gets where steps alone would take it. -/
theorem driveAll_eq_poll (scheduler : Scheduler) (pollings : List Polling) :
    scheduler.driveAll pollings =
      (scheduler.poll (pollings.flatMap Polling.times)).scheduler := by
  induction pollings generalizing scheduler with
  | nil => rfl
  | cons polling rest ih =>
    rw [List.flatMap_cons, poll_append, ← drive_eq_poll, ← ih]
    rfl

/-- A sound scheduler is sound however it is driven. -/
theorem Sound.driveAll (sound : scheduler.Sound given) (pollings : List Polling) :
    (scheduler.driveAll pollings).Sound given := by
  rw [driveAll_eq_poll]
  exact sound.poll _

/-- The command types stay the same over any number of steps. -/
theorem arity_poll (scheduler : Scheduler) (times : List Time) :
    (scheduler.poll times).scheduler.arity = scheduler.arity := by
  induction times generalizing scheduler with
  | nil => rfl
  | cons now later ih => exact ih _

/-- No repetition in a run of a sound scheduler is for a group that is missing. -/
theorem Sound.outcome_run (sound : scheduler.Sound given) {start stop : Time} {step : StepTrace}
    (isStep : step ∈ (scheduler.run start stop).steps) {trace : RepetitionTrace}
    (member : trace ∈ step.repetitions) (name : GroupName) :
    trace.outcome ≠ .failed (.groupNotFound name) := by
  obtain ⟨quiet, polled⟩ := poll_window scheduler start stop
  have isPolled : step ∈ (scheduler.poll (window start stop)).steps := by
    rw [polled]
    exact List.mem_append_left _ isStep
  exact sound.outcome_poll isPolled member name

end Scheduler

/-- How far a sequence can have come. -/
theorem ScheduledSequence.state_cases (sequence : ScheduledSequence) :
    sequence.state = .pending ∨ sequence.state = .done ∨
      ∃ completed, sequence.state = .running completed ∧ 1 ≤ completed ∧
        completed < sequence.total := by
  rw [ScheduledSequence.state, isDone]
  simp only [decide_eq_true_eq]
  by_cases done : sequence.total ≤ sequence.completed
  · exact .inr (.inl (if_pos done))
  rw [if_neg done]
  by_cases fresh : sequence.completed = 0
  · exact .inl (if_pos fresh)
  · exact .inr (.inr ⟨sequence.completed, if_neg fresh, by omega, by omega⟩)

/-- What holds of every scheduler that is reached from a new one by steps and runs, whatever its
directives are: the numbers of a sequence fit, it is pending, done, or on its way between its first
and its last repetition, and its group exists. It stays at its position, and only gets further.
The groups are those that the operations of directives have built, each filed under its own name.
So the counter of a sequence never overflows, and no repetition fails for want of its group. -/
theorem scheduler_invariant (arity : ArityLookup) (directives : List Directive)
    (pollings : List Polling) :
    let scheduler := (Scheduler.create arity directives).driveAll pollings
    let registry := scheduler.state.registry
    (∀ sequence ∈ scheduler.state.sequences,
        (1 ≤ sequence.total ∧ (sequence.total : Int) ≤ maxCount ∧
          (sequence.period : Int) ≤ Int64.maxValue.toInt) ∧
        (sequence.state = .pending ∨ sequence.state = .done ∨
          ∃ completed, sequence.state = .running completed ∧ 1 ≤ completed ∧
            completed < sequence.total) ∧
        ∃ group, registry.get sequence.group = .ok group ∧ group.name = sequence.group) ∧
      (∀ (further : List Polling) (position : Nat) (sequence : ScheduledSequence),
        scheduler.state.sequences[position]? = some sequence →
        ∃ completed, sequence.completed ≤ completed ∧
          (scheduler.driveAll further).state.sequences[position]? =
            some { sequence with completed }) ∧
      (∃ fired : List Directive, fired ⊆ directives ∧
        let table := GroupTable.empty.after arity (fired.flatMap Directive.operations)
        table.registry = registry ∧ table.entries.keys.Nodup ∧
          ∀ entry ∈ table.entries, entry.2.name = entry.1) ∧
      (∀ now, ∀ sequence ∈ (scheduler.afterDirectives now).sequences,
        CatchesUp now sequence.machine ((sequence.dueIterations now).map UInt32.ofNat)
          (sequence.advanceTo now).machine) ∧
      (∀ now, ∀ trace ∈ (scheduler.step now).2.repetitions, ∀ name,
        trace.outcome ≠ .failed (.groupNotFound name)) ∧
      ∀ start stop, ∀ step ∈ (scheduler.run start stop).steps, ∀ trace ∈ step.repetitions,
        ∀ name, trace.outcome ≠ .failed (.groupNotFound name) := by
  intro scheduler registry
  have sound : scheduler.Sound directives :=
    (Scheduler.sound_create arity directives).driveAll pollings
  have sameArity : scheduler.arity = arity := by
    simp only [scheduler, Scheduler.driveAll_eq_poll, Scheduler.arity_poll]
    rfl
  refine ⟨fun sequence member => ?_, fun further position sequence stands => ?_, ?_, ?_, ?_, ?_⟩
  · have inRange := sound.state.inRange sequence member
    obtain ⟨group, found⟩ :=
      Registry.exists_get_of_mem_names (sound.state.grouped sequence member)
    exact ⟨⟨inRange.total_pos, inRange.total_le, inRange.period_le⟩, sequence.state_cases,
      group, found, Registry.name_of_get found⟩
  · let times := further.flatMap Polling.times
    refine ⟨(sequence.advanceAll times).completed,
      ScheduledSequence.completed_le_advanceAll sequence times, ?_⟩
    rw [Scheduler.driveAll_eq_poll, Scheduler.getElem?_poll stands]
    exact congrArg some (sequence.advanceAll_eq times)
  · obtain ⟨fired, areGiven, built⟩ := sound.state.built
    rw [sameArity] at built
    obtain ⟨sameRegistry, -, wellFiled⟩ :=
      GroupTable.after_agrees (GroupTable.wellFiled_empty arity)
        (fired.flatMap Directive.operations)
    exact ⟨fired, areGiven, sameRegistry.trans built.symm, wellFiled.keys_distinct,
      wellFiled.named⟩
  · intro now sequence stands
    exact ScheduledSequence.catchesUp_advanceTo
      ((sound.afterDirectives now).inRange sequence stands) now
  · intro now trace member name
    exact sound.outcome_step member name
  · intro start stop step isStep trace member name
    exact sound.outcome_run isStep member name

end TimedCommands
