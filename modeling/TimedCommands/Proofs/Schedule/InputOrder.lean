import TimedCommands.Dispatch.LineOutput
import TimedCommands.Proofs.Schedule.Isolation
import TimedCommands.Proofs.Validation.Admission

/-!
# The order of the input

An author may list directives in any order, as long as those of one time stay in theirs: validation
and the scheduler bring directives into firing order on their own, and that order is told by the
directives of each time (`firingOrder_eq_iff`). Both see the same list then, so nothing that
follows can differ (`input_order_within_steps`). The scheduler finds the directives that validation
accepts in order already.
-/

namespace TimedCommands

/-- The firing order tells the directives of each time in their order, and nothing else. -/
theorem firingOrder_eq_iff {left right : List Directive} :
    firingOrder left = firingOrder right ↔
      ∀ time : Time, left.filter (·.time = time) = right.filter (·.time = time) := by
  constructor
  · intro sameOrder time
    rw [← filter_time_firingOrder left, ← filter_time_firingOrder right, sameOrder]
  · intro sameSteps
    refine (inFiringOrder_firingOrder left).eq_of_filter_time (inFiringOrder_firingOrder right)
      fun time => ?_
    rw [filter_time_firingOrder, filter_time_firingOrder, sameSteps]

/-- What validation accepts stands in firing order. -/
theorem Validation.inFiringOrder_accepted (context : ValidationContext)
    (directives : List Directive) : InFiringOrder (run context directives).accepted := by
  cases enabled : context.enabled with
  | true =>
    rw [run_of_enabled enabled]
    exact (inFiringOrder_firingOrder directives).sublist (accepted_judge_sublist context _)
  | false =>
    rw [accepted_of_disabled enabled]
    exact .nil

/-- The reports of steps, one after the other, each with the number of its commands that the
dispatcher did not run. -/
def Dispatcher.reports {σ : Type} (dispatcher : Dispatcher σ) : σ → List StepTrace → List Report
  | _, [] => []
  | state, trace :: rest =>
    let delivery := dispatcher.deliver state trace.journal
    trace.report delivery.declined :: dispatcher.reports delivery.state rest

/-- The order of directives in the input matters only among those of one time. Two lists that agree
on every time are judged alike, whatever the settings are; they make the same scheduler, which at
any times has the same groups, sequences and pending directives and gives the same reports and
calls, whatever the dispatcher answers. What was accepted is left in its order. -/
theorem input_order_within_steps {σ : Type} {left right : List Directive}
    (sameSteps : ∀ time : Time, left.filter (·.time = time) = right.filter (·.time = time))
    (context : ValidationContext) (arity : ArityLookup) (times : List Time)
    (dispatcher : Dispatcher σ) (initial : σ) :
    let judged := Validation.run context left
    let rejudged := Validation.run context right
    let polled := (Scheduler.create arity left).poll times
    let repolled := (Scheduler.create arity right).poll times
    judged.accepted = rejudged.accepted ∧ judged.rejected = rejudged.rejected ∧
      judged.context.declared = rejudged.context.declared ∧
      (Scheduler.create arity left).pending = (Scheduler.create arity right).pending ∧
      polled.scheduler.pending = repolled.scheduler.pending ∧
      polled.scheduler.state.registry = repolled.scheduler.state.registry ∧
      polled.scheduler.state.sequences = repolled.scheduler.state.sequences ∧
      dispatcher.reports initial polled.steps = dispatcher.reports initial repolled.steps ∧
      polled.handed dispatcher initial = repolled.handed dispatcher initial ∧
      (Scheduler.create arity judged.accepted).pending = judged.accepted := by
  intro judged rejudged polled repolled
  have sameOrder : firingOrder left = firingOrder right := firingOrder_eq_iff.mpr sameSteps
  have sameVerdicts : judged = rejudged := by
    simp only [judged, rejudged, Validation.run, sameOrder]
  have sameScheduler : Scheduler.create arity left = Scheduler.create arity right := by
    rw [Scheduler.create, Scheduler.create, sameOrder]
  have sameRun : polled = repolled := congrArg (·.poll times) sameScheduler
  have kept : (Scheduler.create arity judged.accepted).pending = judged.accepted :=
    (Validation.inFiringOrder_accepted context left).firingOrder_eq
  refine ⟨?_, ?_, ?_, ?_, ?_, ?_, ?_, ?_, ?_, kept⟩
  · rw [sameVerdicts]
  · rw [sameVerdicts]
  · rw [sameVerdicts]
  · rw [sameScheduler]
  all_goals rw [sameRun]

/-- Two creations that contend for a name, each at its own time, and what is done to the group:
written in the order of time, and with the later time first. -/
def orderedInput : List Directive :=
  [⟨0, "probe", .createGroup⟩, ⟨0, "probe", .addCommand "move" ["x"]⟩, ⟨3, "probe", .createGroup⟩,
    ⟨3, "probe", .toggleAll⟩]

/-- The later time first. -/
def shuffledInput : List Directive :=
  [⟨3, "probe", .createGroup⟩, ⟨0, "probe", .createGroup⟩, ⟨3, "probe", .toggleAll⟩,
    ⟨0, "probe", .addCommand "move" ["x"]⟩]

/-- However the two inputs are written, the creation that fires first is accepted and the other is
rejected. -/
theorem input_order_of_shuffled :
    let arity := (CommandTypes.ofList [("move", 1)]).arity
    let context := ValidationContext.fresh arity true false
    (∀ time : Time,
        orderedInput.filter (·.time = time) = shuffledInput.filter (·.time = time)) ∧
      orderedInput ≠ shuffledInput ∧
      (Validation.run context orderedInput).accepted =
        (Validation.run context shuffledInput).accepted ∧
      (Validation.run context orderedInput).rejected =
        (Validation.run context shuffledInput).rejected ∧
      (Validation.run context orderedInput).rejected =
        [⟨⟨3, "probe", .createGroup⟩, .groupInUse "probe"⟩] := by
  intro arity context
  have sameSteps : ∀ time : Time,
      orderedInput.filter (·.time = time) = shuffledInput.filter (·.time = time) := by
    intro time
    by_cases early : 0 = time
    · subst early
      decide
    · by_cases late : 3 = time
      · subst late
        decide
      · simp [orderedInput, shuffledInput, early, late]
  have inOrder : firingOrder orderedInput = orderedInput :=
    InFiringOrder.firingOrder_eq (by unfold InFiringOrder; decide)
  obtain ⟨sameAccepted, sameRejected, -⟩ :=
    input_order_within_steps sameSteps context arity [0, 3] LineOutput.dispatcher
      (LineOutput.begin none)
  refine ⟨sameSteps, by decide, sameAccepted, sameRejected, ?_⟩
  rw [Validation.run_of_enabled rfl, inOrder]
  decide +kernel

end TimedCommands
