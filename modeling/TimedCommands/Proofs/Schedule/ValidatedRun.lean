import TimedCommands.Proofs.Schedule.Faults
import TimedCommands.Proofs.Schedule.FiringOrder
import TimedCommands.Proofs.Schedule.Polling
import TimedCommands.Proofs.Validation.Acceptance

/-!
# Runs of validated programs

Validation looks at directives before anything runs, and firing looks at them again without
knowing of it. `faults_of_validated_run` shows that the first look is thorough: at whatever
times a scheduler of accepted directives is polled, nothing fails but by the state.

The invariant is that the directives still pending are admissible beside the groups that
exist. A directive that fails or misses its step adds no group, so fewer names are taken than
validation counted on; one that succeeds takes no name but the one it was admitted with.
-/

namespace TimedCommands

/-- A successful firing adds the name of the group that its directive creates, if any. -/
theorem RunState.names_of_fire {arity : ArityLookup} {state changed : RunState}
    {directive : Directive} {effects : List Effect}
    (fired : state.fire arity directive = .ok (changed, effects)) :
    changed.registry.names = state.registry.names ++ directive.creation?.toList := by
  cases fired_of_fire fired with
  | created creates made =>
    have added := (Registry.names_of_create made).2
    simp [Directive.creation?, creates, added]
  | edited other keeps starts found named =>
    have creates : directive.creation? = none := by
      rw [Directive.creation?]
      split
      · exact absurd ‹_› keeps
      · rfl
    simp [replace, creates]
  | scheduled starts found =>
    have creates : directive.creation? = none := by
      rw [Directive.sequence?] at starts
      split at starts
      · simp [Directive.creation?, *]
      · cases starts
    simp [creates]

namespace Scheduler

variable {arity : ArityLookup} {now : Time} {state : RunState} {directive : Directive}
  {due rest : List Directive}

/-- An admissible directive leaves those behind it admissible, whatever becomes of it. -/
theorem admissible_handleDirective (now : Time)
    (admissible : Admissible arity state.registry.names (directive :: rest)) :
    Admissible arity (handleDirective arity now state directive).1.registry.names rest := by
  -- A directive that is missed or fails takes no name, not even the one it was admitted with.
  have kept : Admissible arity state.registry.names rest :=
    admissible.sublist (List.sublist_cons_self directive rest)
  rw [handleDirective]
  split
  · exact kept
  · cases fired : state.fire arity directive with
    | error fault => exact kept
    | ok result =>
      obtain ⟨changed, effects⟩ := result
      have added := (admissible_cons_iff.mp admissible).2.2
      rwa [← RunState.names_of_fire fired] at added

/-- An admissible directive fails only for a reason that depends on the state. -/
theorem fault_of_handleDirective {fault : Fault}
    (admissible : Admissible arity state.registry.names (directive :: rest))
    (failed : (handleDirective arity now state directive).2 = .failed fault) :
    fault.isStateDependent := by
  obtain ⟨inRange, new, -⟩ := admissible_cons_iff.mp admissible
  have unused : directive.action = .createGroup → directive.group ∉ state.registry.names :=
    fun creates => new directive.group (by rw [Directive.creation?, creates])
  rw [handleDirective] at failed
  split at failed
  · cases failed
  · cases fired : state.fire arity directive with
    | ok result => simp [fired] at failed
    | error other =>
      obtain rfl : other = fault := by simpa [fired] using failed
      exact RunState.fire_failsByState inRange unused other fired

/-- What is left behind admissible directives is admissible with the groups that they made. -/
theorem admissible_handleDirectives (now : Time)
    (admissible : Admissible arity state.registry.names (due ++ rest)) :
    Admissible arity (handleDirectives arity now state due).1.registry.names rest := by
  induction due generalizing state with
  | nil => exact admissible
  | cons directive due ih => exact ih (admissible_handleDirective now admissible)

/-- Of admissible directives, each fails only for a reason that depends on the state. -/
theorem fault_of_handleDirectives {trace : DirectiveTrace} {fault : Fault}
    (admissible : Admissible arity state.registry.names due)
    (member : trace ∈ (handleDirectives arity now state due).2)
    (failed : trace.outcome = .failed fault) : fault.isStateDependent := by
  induction due generalizing state with
  | nil => cases member
  | cons directive due ih =>
    rcases List.mem_cons.mp member with rfl | later
    · exact fault_of_handleDirective admissible failed
    · exact ih (admissible_handleDirective now admissible) later

/-- A repetition fails only for a reason that depends on the state. -/
theorem fault_of_handleRepetition {registry : Registry} {sequence : ScheduledSequence}
    {iteration : Nat} {fault : Fault}
    (failed : handleRepetition registry now sequence iteration = .failed fault) :
    fault.isStateDependent := by
  have failsByState := (registry.get_failsByState sequence.group).bind fun group =>
    group.resolve_failsByState iteration
  rw [handleRepetition] at failed
  split at failed
  · cases failed
  · split at failed
    · cases failed
    · cases failed
      exact failsByState fault ‹_›

/-- The directives that a scheduler still has to handle are admissible beside the groups that
exist. -/
def IsAdmissible (scheduler : Scheduler) : Prop :=
  Admissible scheduler.arity scheduler.state.registry.names scheduler.pending

variable {scheduler : Scheduler}

/-- A scheduler for admissible directives is admissible. -/
theorem isAdmissible_create {directives : List Directive}
    (admissible : Admissible arity [] directives) : (create arity directives).IsAdmissible :=
  admissible.perm (firingOrder_perm directives).symm

/-- An admissible scheduler is so after a step. -/
theorem IsAdmissible.step (admissible : scheduler.IsAdmissible) (now : Time) :
    (scheduler.step now).1.IsAdmissible := by
  have split : Admissible scheduler.arity scheduler.state.registry.names
      (scheduler.pending.takeWhile (·.time ≤ now) ++ scheduler.pending.dropWhile (·.time ≤ now)) := by
    rwa [List.takeWhile_append_dropWhile]
  exact admissible_handleDirectives now split

/-- A step of a scheduler whose directives are admissible has no failures but by the state. -/
theorem IsAdmissible.failures_step (admissible : scheduler.IsAdmissible) (declined : Nat) :
    ∀ failure ∈ ((scheduler.step now).2.report declined).failures,
      failure.fault.isStateDependent := by
  intro failure member
  rcases List.mem_append.mp member with ofDirective | ofRepetition
  · obtain ⟨trace, traced, failed⟩ := List.mem_filterMap.mp ofDirective
    have due := admissible.sublist (List.takeWhile_sublist (fun directive => directive.time ≤ now))
    rw [DirectiveTrace.failure?] at failed
    split at failed <;> cases failed
    exact fault_of_handleDirectives due traced ‹_›
  · obtain ⟨trace, traced, failed⟩ := List.mem_filterMap.mp ofRepetition
    obtain ⟨sequence, -, handled⟩ := List.mem_flatMap.mp traced
    obtain ⟨iteration, -, rfl⟩ := List.mem_map.mp handled
    rw [RepetitionTrace.failure?] at failed
    split at failed <;> cases failed
    exact fault_of_handleRepetition ‹_›

/-- Polling keeps to failures by the state, in whatever order times come. -/
theorem IsAdmissible.failures_poll (admissible : scheduler.IsAdmissible) (times : List Time)
    (declined : Nat) : ∀ trace ∈ (scheduler.poll times).steps,
      ∀ failure ∈ (trace.report declined).failures, failure.fault.isStateDependent := by
  induction times generalizing scheduler with
  | nil => nofun
  | cons now later ih =>
    intro trace member
    rw [poll_cons] at member
    rcases List.mem_cons.mp member with rfl | member
    · exact admissible.failures_step declined
    · exact ih (admissible.step now) trace member

end Scheduler

/-- If the accepted directives of a validated program are scheduled with the same command
types, no step reports a failure that a directive could have been rejected for, at whatever
times the scheduler is polled. -/
theorem faults_of_validated_run (arity : ArityLookup) (legacy : Bool) (directives : List Directive)
    (times : List Time) (declined : Nat) :
    let accepted := (Validation.run (.fresh arity true legacy) directives).accepted
    ∀ trace ∈ ((Scheduler.create arity accepted).poll times).steps,
      ∀ failure ∈ (trace.report declined).failures, failure.fault.isStateDependent := by
  have admissible := Validation.admissible_accepted (.fresh arity true legacy) directives
  exact (Scheduler.isAdmissible_create admissible).failures_poll times declined

/-- Directives that are all accepted, and that meet every fault that depends on the state. -/
def troubledProgram : List Directive :=
  [⟨0, "ghost", .toggleAll⟩,
    ⟨0, "bare", .createGroup⟩,
    ⟨0, "bare", .addCommand "move" ["x"]⟩,
    ⟨0, "bare", .bindConstant ⟨1, "y"⟩ (.integer 0)⟩,
    ⟨0, "bare", .toggleCommand 2⟩,
    ⟨0, "bare", .executeSequence 1 0⟩,
    ⟨0, "loop", .createGroup⟩,
    ⟨0, "loop", .addCommand "move" ["x"]⟩,
    ⟨0, "loop", .bindArgument ⟨1, "x"⟩ ⟨1, "x"⟩⟩,
    ⟨0, "loop", .executeSequence 1 0⟩,
    ⟨0, "rise", .createGroup⟩,
    ⟨0, "rise", .addCommand "move" ["x"]⟩,
    ⟨0, "rise", .bindSequence ⟨1, "x"⟩ (.integer Int64.maxValue) (.integer 1)⟩,
    ⟨0, "rise", .executeSequence 2 0⟩]

/-- Every fault that depends on the state can be met by a validated program. -/
theorem faults_of_troubledProgram :
    let arity := (CommandTypes.ofList [("move", 1)]).arity
    let accepted := (Validation.run (.fresh arity true true) troubledProgram).accepted
    let slot : SlotName := ⟨⟨0⟩, "x"⟩
    ∃ trace ∈ ((Scheduler.create arity accepted).poll [0]).steps,
      (trace.report 0).failures.map (·.fault) =
        [.groupNotFound "ghost", .unknownSlot ⟨⟨0⟩, "y"⟩, .commandNotFound ⟨1⟩, .unboundSlot slot,
          .cyclicReference [slot, slot], .sequenceOverflow slot 1] ∧
      ∃ failure ∈ (trace.report 0).failures,
        failure.fault = .sequenceOverflow slot 1 ∧ failure.fault.isStateDependent := by
  intro arity accepted slot
  have inOrder : firingOrder troubledProgram = troubledProgram :=
    InFiringOrder.firingOrder_eq (by unfold InFiringOrder; decide)
  have allAccepted : accepted = troubledProgram := by
    change (Validation.run (.fresh arity true true) troubledProgram).accepted = _
    rw [Validation.run, inOrder]
    decide +kernel
  have created : Scheduler.create arity accepted = ⟨arity, troubledProgram, .empty⟩ := by
    rw [allAccepted, Scheduler.create, inOrder]
  have first : ((Scheduler.create arity accepted).step 0).2 ∈
      ((Scheduler.create arity accepted).poll [0]).steps := List.mem_cons_self
  have met : (((Scheduler.create arity accepted).step 0).2.report 0).failures.map (·.fault) =
      [.groupNotFound "ghost", .unknownSlot ⟨⟨0⟩, "y"⟩, .commandNotFound ⟨1⟩, .unboundSlot slot,
        .cyclicReference [slot, slot], .sequenceOverflow slot 1] := by
    rw [created]
    decide +kernel
  have reported : Fault.sequenceOverflow slot 1 ∈
      (((Scheduler.create arity accepted).step 0).2.report 0).failures.map (·.fault) := by
    rw [met]
    simp
  obtain ⟨failure, member, overflows⟩ := List.mem_map.mp reported
  exact ⟨_, first, met, failure, member, overflows,
    faults_of_validated_run arity true troubledProgram [0] 0 _ first failure member⟩

end TimedCommands
