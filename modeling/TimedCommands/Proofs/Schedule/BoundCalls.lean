import TimedCommands.Proofs.Group.Resolution
import TimedCommands.Proofs.Schedule.Isolation
import TimedCommands.Proofs.Schedule.Reachable
import TimedCommands.Proofs.Schedule.Repetitions

/-!
# Every call is fully bound

A command has as many placeholders as its type takes from the moment it is added, and keeps them. So
this holds of every group that a scheduler can have built, whether or not its directives were
validated (`RunState.Sound.counted`). A repetition resolves its group among those there are behind
the directives of its step: it hands over the enabled commands in the order of their indices, with
one value for each placeholder, or nothing if a single slot does not evaluate
(`RepetitionTrace.FullyBound`).
-/

namespace TimedCommands

/-- What a repetition hands over of a group: enabled commands in the order of their indices, each
with the values of all its slots and as many of them as its type takes, but none at all if a slot of
an enabled command does not evaluate. -/
structure RepetitionTrace.FullyBound (arity : ArityLookup) (group : Group)
    (trace : RepetitionTrace) : Prop where
  ascending : trace.commands.Pairwise fun left right => left.index.number < right.index.number
  enabled : ∀ resolved ∈ trace.commands, ∃ entry ∈ group.indexed,
    entry.2.enabled ∧ group.Resolves trace.iteration entry resolved
  counted : ∀ resolved ∈ trace.commands, arity resolved.typeName = some resolved.arguments.length
  allOrNothing : ∀ slot ∈ group.enabledSlots, ∀ fault,
    group.evaluate slot trace.iteration = .error fault → trace.commands = []

namespace Group

variable {arity : ArityLookup} {group : Group} {iteration : Nat} {trace : RepetitionTrace}

/-- A resolved command has a value for each placeholder of the command that it stands for. -/
theorem Resolves.length_arguments {entry : CommandIndex × Command} {resolved : ResolvedCommand}
    (resolves : group.Resolves iteration entry resolved) :
    resolved.arguments.length = entry.2.placeholders.length := by
  have slots := resolves.arguments.length_eq
  simpa [Command.placeholders] using slots.symm

/-- A command with its index is a command of the group. -/
theorem mem_commands_of_mem_indexed {entry : CommandIndex × Command}
    (member : entry ∈ group.indexed) : entry.2 ∈ group.commands := by
  obtain ⟨⟨command, position⟩, isCommand, rfl⟩ := List.mem_map.mp member
  exact List.mem_of_getElem? (List.mk_mem_zipIdx_iff_getElem?.mp isCommand)

/-- What is resolved from commands is resolved from one of them. -/
theorem exists_resolves_of_mem {commands : List (CommandIndex × Command)}
    {all : List ResolvedCommand} (stand : List.Forall₂ (group.Resolves iteration) commands all)
    {resolved : ResolvedCommand} (member : resolved ∈ all) :
    ∃ entry ∈ commands, group.Resolves iteration entry resolved := by
  induction stand with
  | nil => cases member
  | cons first _ ih =>
    rcases List.mem_cons.mp member with rfl | later
    · exact ⟨_, .head _, first⟩
    · obtain ⟨entry, isEntry, resolves⟩ := ih later
      exact ⟨entry, .tail _ isEntry, resolves⟩

/-- A repetition without commands has none that is not fully bound. -/
theorem fullyBound_of_commands_eq_nil (nothing : trace.commands = []) :
    trace.FullyBound arity group where
  ascending := by simp [nothing]
  enabled := by simp [nothing]
  counted := by simp [nothing]
  allOrNothing _ _ _ _ := nothing

/-- A group whose commands have as many placeholders as their types take is handed over fully
bound. -/
theorem fullyBound_of_resolve
    (counted : ∀ command ∈ group.commands,
      arity command.typeName = some command.placeholders.length)
    (resolves : group.resolve trace.iteration = .ok trace.commands) :
    trace.FullyBound arity group := by
  rcases resolveCommands_spec remembers_nil group.indexed with
    ⟨resolved, succeeds, stand⟩ | ⟨fault, fails, -⟩
  · obtain rfl : resolved = trace.commands := Except.ok.inj (succeeds.symm.trans resolves)
    have standsFor : ∀ resolved ∈ trace.commands, ∃ entry ∈ group.indexed,
        entry.2.enabled ∧ group.Resolves trace.iteration entry resolved := by
      intro resolved member
      obtain ⟨entry, isEntry, resolves⟩ := exists_resolves_of_mem stand member
      obtain ⟨isIndexed, enabled⟩ := List.mem_filter.mp isEntry
      exact ⟨entry, isIndexed, enabled, resolves⟩
    refine ⟨pairwise_index_of_resolves ((pairwise_indexed group).filter _) stand, standsFor, ?_, ?_⟩
    · intro resolved member
      obtain ⟨entry, isEntry, -, resolves⟩ := standsFor resolved member
      rw [resolves.typeName, resolves.length_arguments]
      exact counted entry.2 (mem_commands_of_mem_indexed isEntry)
    · intro slot isSlot fault fails
      rw [enabledSlots_eq_flatMap] at isSlot
      obtain ⟨value, evaluates⟩ := evaluates_of_resolves stand slot isSlot
      cases fails.symm.trans evaluates
  · cases fails.symm.trans resolves

end Group

/-- In a sound state, a command has as many placeholders as its type takes. -/
theorem RunState.Sound.counted {arity : ArityLookup} {given : List Directive} {state : RunState}
    (sound : state.Sound arity given) {name : GroupName} {group : Group}
    (found : state.registry.get name = .ok group) :
    ∀ command ∈ group.commands, arity command.typeName = some command.placeholders.length := by
  obtain ⟨fired, -, built⟩ := sound.built
  obtain ⟨sameRegistry, -, wellFiled⟩ :=
    GroupTable.after_agrees (GroupTable.wellFiled_empty arity) (fired.flatMap Directive.operations)
  have filed : (GroupTable.empty.after arity (fired.flatMap Directive.operations)).registry =
      state.registry := sameRegistry.trans built.symm
  exact fun command member => (wellFiled.commands (filed ▸ found) command member).2

namespace Scheduler

variable {given : List Directive} {scheduler : Scheduler} {now : Time}

/-- A repetition whose group exists hands over what the group resolves to, or nothing. -/
theorem commands_handleRepetition {registry : Registry} {sequence : ScheduledSequence}
    {group : Group} (found : registry.get sequence.group = .ok group) (now : Time)
    (iteration : Nat) :
    let trace : RepetitionTrace :=
      ⟨sequence, iteration, handleRepetition registry now sequence iteration⟩
    trace.commands = [] ∨ group.resolve iteration = .ok trace.commands := by
  intro trace
  have resolves : ((registry.get sequence.group).bind fun group => group.resolve iteration) =
      group.resolve iteration := by
    rw [found]
    rfl
  by_cases missed : sequence.slotTime iteration < now
  · simp [trace, RepetitionTrace.commands, handleRepetition, missed]
  · cases resolved : group.resolve iteration <;>
      simp [trace, RepetitionTrace.commands, handleRepetition, missed, resolves, resolved]

/-- In a step of a sound scheduler, every repetition finds its group and is fully bound. -/
theorem Sound.fullyBound_step (sound : scheduler.Sound given) {trace : RepetitionTrace}
    (member : trace ∈ (scheduler.step now).2.repetitions) :
    ∃ group, (scheduler.afterDirectives now).registry.get trace.sequence.group = .ok group ∧
      trace.FullyBound scheduler.arity group := by
  have soundAfter := sound.afterDirectives now
  rw [repetitions_step] at member
  obtain ⟨sequence, stands, handled⟩ := List.mem_flatMap.mp member
  obtain ⟨iteration, -, rfl⟩ := List.mem_map.mp handled
  obtain ⟨group, found⟩ := Registry.exists_get_of_mem_names (soundAfter.grouped sequence stands)
  refine ⟨group, found, ?_⟩
  rcases commands_handleRepetition found now iteration with nothing | resolves
  · exact Group.fullyBound_of_commands_eq_nil nothing
  · exact Group.fullyBound_of_resolve (soundAfter.counted found) resolves

/-- Each step of a poll is taken where the times before it have left the scheduler. -/
theorem step_of_getElem?_poll (scheduler : Scheduler) {times : List Time} {index : Nat}
    {step : StepTrace} (isStep : (scheduler.poll times).steps[index]? = some step) :
    step = ((scheduler.poll (times.take index)).scheduler.step step.time).2 := by
  induction times generalizing scheduler index with
  | nil => cases isStep
  | cons now later ih =>
    cases index with
    | zero =>
      cases isStep
      rfl
    | succ index => exact ih _ isStep

end Scheduler

/-- Every command that is handed over is fully bound, whatever the directives, the command types and
the times of the steps are. The calls of a step are made at its time, by its repetitions one after
the other. A repetition finds its group among those there are behind the directives of its step, and
hands over enabled commands of it in the order of their indices, each with the values of its slots,
as many as its type takes; if a slot of an enabled command does not evaluate, it hands over none. -/
theorem calls_are_fully_bound {σ : Type} (arity : ArityLookup) (directives : List Directive)
    (times : List Time) (dispatcher : Dispatcher σ) (initial : σ) :
    let scheduler := Scheduler.create arity directives
    let run := scheduler.poll times
    run.steps.map (·.time) = times ∧
      run.handed dispatcher initial = run.steps.flatMap StepTrace.calls ∧
      ∀ index step, run.steps[index]? = some step →
        let before := (scheduler.poll (times.take index)).scheduler
        let registry := (before.afterDirectives step.time).registry
        step.calls = step.repetitions.flatMap (fun repetition =>
            repetition.commands.map fun resolved =>
              ⟨step.time, resolved.typeName, resolved.arguments⟩) ∧
          (∀ repetition ∈ step.repetitions, ∃ group,
            registry.get repetition.sequence.group = .ok group ∧
              repetition.FullyBound arity group) ∧
          ∀ call ∈ step.calls, arity call.typeName = some call.arguments.length := by
  intro scheduler run
  refine ⟨scheduler.times_poll times, run.handed_eq_calls dispatcher initial,
    fun index step isStep => ?_⟩
  intro before registry
  have isTaken : step = (before.step step.time).2 := scheduler.step_of_getElem?_poll isStep
  have sound : before.Sound directives := (Scheduler.sound_create arity directives).poll _
  have sameArity : before.arity = arity := Scheduler.arity_poll scheduler _
  have bound : ∀ repetition ∈ step.repetitions, ∃ group,
      registry.get repetition.sequence.group = .ok group ∧ repetition.FullyBound arity group := by
    intro repetition member
    rw [← sameArity]
    exact sound.fullyBound_step (isTaken ▸ member)
  refine ⟨rfl, bound, fun call member => ?_⟩
  obtain ⟨repetition, isRepetition, made⟩ := List.mem_flatMap.mp member
  obtain ⟨resolved, isResolved, rfl⟩ := List.mem_map.mp made
  obtain ⟨group, -, fullyBound⟩ := bound repetition isRepetition
  exact fullyBound.counted resolved isResolved

end TimedCommands
