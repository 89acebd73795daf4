import TimedCommands.Proofs.Schedule.Polling
import TimedCommands.Proofs.Schedule.Step

/-!
# Every directive is handled once

A scheduler may be polled at any times, forwards and backwards, with repeats and gaps. Each
directive is then handled in the first step that comes at or after its time, and in no other:
it fires there if the step comes at its very time, and has missed its step otherwise. What no
step has reached is still pending (`directives_handled_once`).

A step parts the pending directives at its time, and they stand in firing order, so both parts
are told by the times alone; `handled_poll` puts the parts of all steps together.
-/

namespace TimedCommands

/-- What is due and what is not are all directives, in order, also among those of some kind. -/
theorem InFiringOrder.filter_append {directives : List Directive}
    (ordered : InFiringOrder directives) (now : Time) (keeps : Directive → Bool) :
    (directives.filter (·.time ≤ now)).filter keeps ++
        (directives.filter (now < ·.time)).filter keeps =
      directives.filter keeps := by
  rw [← ordered.takeWhile_due, ← ordered.dropWhile_due, ← List.filter_append,
    List.takeWhile_append_dropWhile]

namespace Scheduler

variable {arity : ArityLookup} {scheduler : Scheduler} {now : Time}

/-- A directive is missed exactly if its time is before that of the step. -/
theorem isMissed_handleDirective (arity : ArityLookup) (now : Time) (state : RunState)
    (directive : Directive) :
    DirectiveTrace.isMissed ⟨directive, (handleDirective arity now state directive).2⟩ =
      decide (directive.time < now) := by
  by_cases missed : directive.time < now
  · simp [handleDirective, missed, DirectiveTrace.isMissed]
  · rw [handleDirective, if_neg missed, decide_eq_false missed]
    cases state.fire arity directive <;> rfl

/-- The directives that are handled are those that are due, in order. -/
theorem directives_handleDirectives (arity : ArityLookup) (now : Time) (state : RunState)
    (due : List Directive) :
    (handleDirectives arity now state due).2.map (·.directive) = due := by
  induction due generalizing state with
  | nil => rfl
  | cons directive rest ih => simp [handleDirectives, ih]

/-- Among the directives of a step, those before its time are missed, whatever the others have
built. -/
theorem isMissed_handleDirectives {arity : ArityLookup} {state : RunState} {due : List Directive}
    {handled : DirectiveTrace} (member : handled ∈ (handleDirectives arity now state due).2) :
    handled.isMissed = decide (handled.directive.time < now) := by
  induction due generalizing state with
  | nil => cases member
  | cons directive rest ih =>
    rcases List.mem_cons.mp member with rfl | later
    · exact isMissed_handleDirective arity now state directive
    · exact ih later

/-- A step handles the pending directives that are due, in order. -/
theorem directives_step (ordered : InFiringOrder scheduler.pending) (now : Time) :
    (scheduler.step now).2.directives.map (·.directive) =
      scheduler.pending.filter (·.time ≤ now) := by
  rw [← ordered.takeWhile_due]
  exact directives_handleDirectives _ now _ _

/-- A step leaves the directives that are behind its time. -/
theorem pending_step (ordered : InFiringOrder scheduler.pending) (now : Time) :
    (scheduler.step now).1.pending = scheduler.pending.filter (now < ·.time) :=
  ordered.dropWhile_due now

namespace Run

/-- The directives that a run has handled, in order, with what became of them. -/
def handled (run : Run) : List DirectiveTrace := run.steps.flatMap (·.directives)

/-- The directives that a run has carried out, whether or not they succeeded. -/
def fired (run : Run) : List Directive :=
  (run.handled.filter fun handled => !handled.isMissed).map (·.directive)

/-- The directives that have missed their step. -/
def missed (run : Run) : List Directive :=
  (run.handled.filter DirectiveTrace.isMissed).map (·.directive)

end Run

/-! Polling from a scheduler whose directives stand in firing order. -/

/-- What a run handles and what it leaves are the directives that were pending, in order. -/
theorem handled_append_pending (scheduler : Scheduler) (times : List Time) :
    (scheduler.poll times).handled.map (·.directive) ++ (scheduler.poll times).scheduler.pending =
      scheduler.pending := by
  induction times generalizing scheduler with
  | nil => rfl
  | cons now later ih =>
    have first : (scheduler.step now).2.directives.map (·.directive) ++
        (scheduler.step now).1.pending = scheduler.pending := by
      have traced := directives_handleDirectives scheduler.arity now scheduler.state
        (scheduler.pending.takeWhile (·.time ≤ now))
      exact (congrArg (· ++ _) traced).trans List.takeWhile_append_dropWhile
    rw [poll_cons, Run.handled, List.flatMap_cons, List.map_append, List.append_assoc]
    exact (congrArg (_ ++ ·) (ih _)).trans first

/-- The directives that the steps of a run handle, picked out by their times and the times of the
steps, are those of the pending ones that are picked out by the first time that reaches them. -/
theorem handled_poll (ordered : InFiringOrder scheduler.pending) (times : List Time)
    (picks : Directive → Time → Bool) :
    ((scheduler.poll times).steps.flatMap fun step =>
        (step.directives.map (·.directive)).filter (picks · step.time)) =
      scheduler.pending.filter fun directive =>
        (times.find? (directive.time ≤ ·)).any (picks directive) := by
  induction times generalizing scheduler with
  | nil => simp
  | cons now later ih =>
    rw [poll_cons, List.flatMap_cons, ih (inFiringOrder_step ordered now),
      directives_step ordered, pending_step ordered]
    refine Eq.trans ?_ (ordered.filter_append now _)
    congr 1
    · refine List.filter_congr fun directive member => ?_
      have due : directive.time ≤ now := of_decide_eq_true (List.mem_filter.mp member).2
      have reached : (now :: later).find? (directive.time ≤ ·) = some now := by simp [due]
      rw [reached]
      rfl
    · refine List.filter_congr fun directive member => ?_
      have ahead : now < directive.time := of_decide_eq_true (List.mem_filter.mp member).2
      rw [List.find?_cons_of_neg (by simpa using ahead)]

/-- The directives that a run leaves are those that none of its times reaches. -/
theorem pending_poll (ordered : InFiringOrder scheduler.pending) (times : List Time) :
    (scheduler.poll times).scheduler.pending =
      scheduler.pending.filter fun directive => times.find? (directive.time ≤ ·) = none := by
  induction times generalizing scheduler with
  | nil => simp
  | cons now later ih =>
    rw [poll_cons, ih (inFiringOrder_step ordered now), pending_step ordered, List.filter_filter]
    refine List.filter_congr fun directive _ => ?_
    by_cases due : directive.time ≤ now
    · simp [due, UInt64.not_lt.mpr due]
    · simp [due, UInt64.not_le.mp due]

/-- A step handles the directives for which it is the first to come at or after their time. -/
theorem directives_poll (ordered : InFiringOrder scheduler.pending) (times : List Time)
    {index : Nat} {step : StepTrace}
    (isStep : (scheduler.poll times).steps[index]? = some step) :
    step.directives.map (·.directive) =
      scheduler.pending.filter fun directive =>
        times.findIdx? (directive.time ≤ ·) = some index := by
  induction times generalizing scheduler index with
  | nil => cases isStep
  | cons now later ih =>
    rw [poll_cons] at isStep
    cases index with
    | zero =>
      cases isStep
      rw [directives_step ordered]
      refine List.filter_congr fun directive _ => ?_
      by_cases due : directive.time ≤ now <;> simp [List.findIdx?_cons, due]
    | succ index =>
      rw [ih (inFiringOrder_step ordered now) isStep, pending_step ordered, List.filter_filter]
      refine List.filter_congr fun directive _ => ?_
      by_cases due : directive.time ≤ now
      · simp [List.findIdx?_cons, due, UInt64.not_lt.mpr due]
      · simp [List.findIdx?_cons, due, UInt64.not_le.mp due]

/-- Over any number of steps, a directive is missed exactly if the step that handles it comes too
late. -/
theorem isMissed_of_mem_poll {times : List Time} {step : StepTrace}
    (isStep : step ∈ (scheduler.poll times).steps) {handled : DirectiveTrace}
    (member : handled ∈ step.directives) :
    handled.isMissed = decide (handled.directive.time < step.time) := by
  induction times generalizing scheduler with
  | nil => cases isStep
  | cons now later ih =>
    rcases List.mem_cons.mp isStep with rfl | isLater
    · exact isMissed_handleDirectives member
    · exact ih isLater

/-- The handled directives that missed their step, or those that did not, are told by the first
time that reaches them. -/
theorem filter_handled_poll (ordered : InFiringOrder scheduler.pending) (times : List Time)
    (keeps : Bool → Bool) :
    ((scheduler.poll times).handled.filter fun handled => keeps handled.isMissed).map
        (·.directive) =
      scheduler.pending.filter fun directive =>
        (times.find? (directive.time ≤ ·)).any fun now => keeps (directive.time < now) := by
  rw [← handled_poll ordered times fun directive now => keeps (directive.time < now), Run.handled,
    List.filter_flatMap, List.map_flatMap]
  refine List.flatMap_congr fun step isStep => ?_
  rw [List.filter_map]
  refine congrArg (List.map _) (List.filter_congr fun handled member => ?_)
  rw [isMissed_of_mem_poll isStep member]
  rfl

/-- The directives that fire are those whose own time is the first that reaches them. -/
theorem fired_poll (ordered : InFiringOrder scheduler.pending) (times : List Time) :
    (scheduler.poll times).fired =
      scheduler.pending.filter fun directive =>
        times.find? (directive.time ≤ ·) = some directive.time := by
  rw [Run.fired, filter_handled_poll ordered times Bool.not]
  refine List.filter_congr fun directive _ => ?_
  cases reached : times.find? (directive.time ≤ ·) with
  | none => rfl
  | some now =>
    have accepted := List.find?_some reached
    have notBefore : directive.time ≤ now := of_decide_eq_true accepted
    by_cases missed : directive.time < now
    · have different : now ≠ directive.time := (UInt64.ne_of_lt missed).symm
      simp [missed, different]
    · have punctual : now = directive.time :=
        UInt64.le_antisymm (UInt64.not_lt.mp missed) notBefore
      simp [punctual]

/-- Missed are the directives whose first step that reaches them is not at their own time. -/
theorem missed_poll (ordered : InFiringOrder scheduler.pending) (times : List Time) :
    (scheduler.poll times).missed =
      scheduler.pending.filter fun directive =>
        (times.find? (directive.time ≤ ·)).any (directive.time < ·) :=
  filter_handled_poll ordered times id

/-- A run has the groups that the directives that fired build, in their order. -/
theorem registry_poll (ordered : InFiringOrder scheduler.pending) (times : List Time) :
    (scheduler.poll times).scheduler.state.registry =
      (scheduler.state.build scheduler.arity (scheduler.poll times).fired).registry := by
  induction times generalizing scheduler with
  | nil => rfl
  | cons now later ih =>
    have first : (scheduler.poll [now]).fired = scheduler.pending.filter (·.time = now) := by
      rw [fired_poll ordered]
      refine List.filter_congr fun directive _ => ?_
      by_cases due : directive.time ≤ now
      · simp [due, eq_comm]
      · have different : directive.time ≠ now := fun same => due (UInt64.le_of_eq same)
        simp [due, different]
    have parts : (scheduler.poll (now :: later)).fired =
        (scheduler.poll [now]).fired ++ ((scheduler.step now).1.poll later).fired := by
      simp [Run.fired, Run.handled]
    rw [parts, RunState.build_append, first, poll_cons, ih (inFiringOrder_step ordered now)]
    refine RunState.registry_build_congr ?_ _
    rw [step_scheduler ordered]
    rfl

namespace Run

/-- The counts that the steps of a run report, taken together, are the numbers of directives that
fired and that missed their step. -/
theorem counts_report (run : Run) (declined : Nat) :
    (run.report declined).fired = run.fired.length ∧
      (run.report declined).missed = run.missed.length := by
  have counts (steps : List StepTrace) (before : Report) :
      let total := steps.foldl (fun report trace => report.add (trace.report 0)) before
      let handled := steps.flatMap (·.directives)
      total.fired = before.fired + (handled.filter fun handled => !handled.isMissed).length ∧
        total.missed = before.missed + (handled.filter DirectiveTrace.isMissed).length := by
    induction steps generalizing before with
    | nil => simp
    | cons step rest ih =>
      obtain ⟨fired, missed⟩ := ih (before.add (step.report 0))
      simp only [List.foldl_cons, List.flatMap_cons, List.filter_append, List.length_append]
      exact ⟨fired.trans (Nat.add_assoc _ _ _), missed.trans (Nat.add_assoc _ _ _)⟩
  obtain ⟨fired, missed⟩ := counts run.steps Report.zero
  simp only [Run.fired, Run.missed, List.length_map]
  exact ⟨fired.trans (Nat.zero_add _), missed.trans (Nat.zero_add _)⟩

end Run

end Scheduler

/-- Polled at any times, in any order, a scheduler handles every directive at most once, in firing
order: in the first step that comes at or after its time. The directive fires if that step comes
at its very time, has missed its step if it comes later, and is still pending if there is none.
What fired, and nothing else, has built the groups, and every directive is counted once. -/
theorem directives_handled_once (arity : ArityLookup) (directives : List Directive)
    (times : List Time) (declined : Nat) :
    let order := firingOrder directives
    let run := (Scheduler.create arity directives).poll times
    (InFiringOrder order ∧
        ∀ time : Time, order.filter (·.time = time) = directives.filter (·.time = time)) ∧
      run.handled.map (·.directive) ++ run.scheduler.pending = order ∧
      run.fired = order.filter (fun directive =>
        times.find? (directive.time ≤ ·) = some directive.time) ∧
      run.missed = order.filter (fun directive =>
        (times.find? (directive.time ≤ ·)).any (directive.time < ·)) ∧
      run.scheduler.pending = order.filter (fun directive =>
        times.find? (directive.time ≤ ·) = none) ∧
      (∀ index step, run.steps[index]? = some step →
        step.directives.map (·.directive) = order.filter fun directive =>
          times.findIdx? (directive.time ≤ ·) = some index) ∧
      run.scheduler.state.registry = (RunState.empty.build arity run.fired).registry ∧
      (run.report declined).fired = run.fired.length ∧
      (run.report declined).missed = run.missed.length ∧
      run.fired.length + run.missed.length + run.scheduler.pending.length =
        directives.length := by
  intro order run
  have ordered : InFiringOrder (Scheduler.create arity directives).pending :=
    inFiringOrder_firingOrder directives
  have parts : run.handled.map (·.directive) ++ run.scheduler.pending = order :=
    Scheduler.handled_append_pending _ times
  have counted : run.fired.length + run.missed.length + run.scheduler.pending.length =
      directives.length := by
    have all : order.length = directives.length := (firingOrder_perm directives).length_eq
    have handled := List.length_eq_length_filter_add (l := run.handled) DirectiveTrace.isMissed
    have whole := congrArg List.length parts
    simp only [List.length_append, List.length_map] at whole
    simp only [Scheduler.Run.fired, Scheduler.Run.missed, List.length_map]
    omega
  obtain ⟨firedCount, missedCount⟩ := run.counts_report declined
  exact ⟨⟨ordered, filter_time_firingOrder directives⟩, parts, Scheduler.fired_poll ordered times,
    Scheduler.missed_poll ordered times, Scheduler.pending_poll ordered times,
    fun index step isStep => Scheduler.directives_poll ordered times isStep,
    Scheduler.registry_poll ordered times, firedCount, missedCount, counted⟩

end TimedCommands
