import TimedCommands.Proofs.Dispatch.Delivery
import TimedCommands.Proofs.Schedule.Polling

/-!
# From event to event

A run polls one time of its window after the other. `Scheduler.leap` polls only where
something happens: at the next event, or at the start of the window if that lies behind it.
By `IsQuietUntil` the times in between are quiet, so a leap is a run without its quiet steps
(`leap_eq_eventful`), and no call, count or failure stands in those.
-/

namespace TimedCommands

/-- Nothing adds nothing to a report. -/
@[simp] theorem Report.add_zero (report : Report) : report.add Report.zero = report := by
  simp [Report.add, Report.zero]

namespace Scheduler

variable {scheduler : Scheduler} {now time start stop : Time}

/-- The later of two times is the greater number. -/
theorem toNat_max (left right : Time) : (max left right).toNat = max left.toNat right.toNat := by
  by_cases ordered : left ≤ right
  · have larger : max left right = right := if_pos ordered
    rw [larger, Nat.max_eq_right (UInt64.le_iff_toNat_le.mp ordered)]
  · have larger : max left right = left := if_neg ordered
    have behind := UInt64.lt_iff_toNat_lt.mp (UInt64.not_le.mp ordered)
    rw [larger, Nat.max_eq_left (Nat.le_of_lt behind)]

/-- How many times there are from the next event on. -/
def timesLeft (scheduler : Scheduler) (stop : Time) : Nat :=
  match scheduler.nextEventTime? with
  | none => 0
  | some time => stop.toNat + 1 - time.toNat

/-- A step at the next event leaves fewer times in the window. -/
theorem timesLeft_step (isNext : scheduler.nextEventTime? = some time)
    (inside : max start time ≤ stop) :
    (scheduler.step (max start time)).1.timesLeft stop < scheduler.timesLeft stop := by
  have within : max start.toNat time.toNat ≤ stop.toNat := by
    simpa only [UInt64.le_iff_toNat_le, toNat_max] using inside
  have quiet := isQuietUntil_step scheduler (max start time)
  rw [timesLeft, timesLeft, isNext]
  cases after : (scheduler.step (max start time)).1.nextEventTime? with
  | none =>
    simp only
    omega
  | some next =>
    have ahead : max start.toNat time.toNat < next.toNat := by
      simpa only [UInt64.lt_iff_toNat_lt, toNat_max] using quiet next after
    simp only
    omega

/-- Polls the times of a window at which something happens, and no others. -/
def leap (scheduler : Scheduler) (start stop : Time) : Run :=
  match _isNext : scheduler.nextEventTime? with
  | none => ⟨scheduler, []⟩
  | some time =>
    let now := max start time
    if _inside : now ≤ stop then
      let rest := (scheduler.step now).1.leap start stop
      ⟨rest.scheduler, (scheduler.step now).2 :: rest.steps⟩
    else ⟨scheduler, []⟩
termination_by scheduler.timesLeft stop
decreasing_by exact timesLeft_step _isNext _inside

/-- A leap goes to the next event inside the window, and on from there. -/
theorem leap_of_event (isNext : scheduler.nextEventTime? = some time)
    (inside : max start time ≤ stop) :
    scheduler.leap start stop =
      let rest := (scheduler.step (max start time)).1.leap start stop
      ⟨rest.scheduler, (scheduler.step (max start time)).2 :: rest.steps⟩ := by
  rw [leap]
  split
  · simp_all
  · simp_all

/-- A leap stops where the next event is beyond the window, or where there is none. -/
theorem leap_of_ahead (ahead : ∀ time ∈ scheduler.nextEventTime?, stop < max start time) :
    scheduler.leap start stop = ⟨scheduler, []⟩ := by
  rw [leap]
  split
  · rfl
  · next time isNext =>
    rw [dif_neg (UInt64.not_le.mpr (ahead time isNext))]

/-- A run without the steps in which nothing happened. -/
def Run.eventful (run : Run) : Run := { run with steps := run.steps.filter StepTrace.isBusy }

/-- Leaping from the start of a window is polling, but for quiet steps, the times from `first` on,
as long as no event is left behind on the way to `first`. -/
theorem leap_eq_eventful_poll (scheduler : Scheduler) (start stop : Time) {first : Nat}
    (come : start.toNat ≤ first)
    (noneBehind : ∀ time ∈ scheduler.nextEventTime?, first ≤ max start.toNat time.toNat) :
    scheduler.leap start stop = (scheduler.poll (times first (stop.toNat + 1))).eventful := by
  -- By induction on the times that are left of the window. A quiet time is passed by a poll and not
  -- by a leap; an event that is due at `first` is the next one that a leap goes to.
  induction remaining : stop.toNat + 1 - first generalizing scheduler first with
  | zero =>
    have past : stop.toNat < first := by omega
    have ahead : ∀ time ∈ scheduler.nextEventTime?, stop < max start time := by
      intro time isNext
      rw [UInt64.lt_iff_toNat_lt, toNat_max]
      exact Nat.lt_of_lt_of_le past (noneBehind time isNext)
    rw [leap_of_ahead ahead, times, Nat.sub_eq_zero_of_le past]
    rfl
  | succ remaining ih =>
    have inside : first < stop.toNat + 1 := by omega
    have bound := stop.toNat_lt_size
    have clock : (UInt64.ofNat first).toNat = first := UInt64.toNat_ofNat_of_lt' (by omega)
    rw [times_cons inside, poll_cons]
    by_cases quiet : scheduler.IsQuietUntil (UInt64.ofNat first)
    · rw [step_of_isQuietUntil quiet]
      refine ih scheduler (by omega) (fun time isNext => ?_) (by omega)
      have ahead := UInt64.lt_iff_toNat_lt.mp (quiet time isNext)
      omega
    · obtain ⟨time, isNext, due⟩ :
          ∃ time ∈ scheduler.nextEventTime?, time ≤ UInt64.ofNat first := by
        simpa [IsQuietUntil] using quiet
      have notLater : time.toNat ≤ first := by
        simpa only [UInt64.le_iff_toNat_le, clock] using due
      have now : max start time = UInt64.ofNat first := by
        have notEarlier := noneBehind time isNext
        rw [← UInt64.toNat_inj, toNat_max, clock]
        omega
      have reached : max start time ≤ stop := by
        rw [now, UInt64.le_iff_toNat_le, clock]
        omega
      have rest : (scheduler.step (UInt64.ofNat first)).1.leap start stop =
          ((scheduler.step (UInt64.ofNat first)).1.poll
            (times (first + 1) (stop.toNat + 1))).eventful := by
        refine ih _ (by omega) (fun next isLater => ?_) (by omega)
        have ahead := UInt64.lt_iff_toNat_lt.mp (isQuietUntil_step scheduler _ next isLater)
        omega
      rw [leap_of_event isNext reached, now, rest]
      simp [Run.eventful, (step_of_not_isQuietUntil quiet).2]

/-- Quiet steps at the end are not eventful. -/
theorem eventful_append_quiet (run : Run) (quiet : List Time) :
    Run.eventful ⟨run.scheduler, run.steps ++ quiet.map quietStep⟩ = run.eventful := by
  have none : (quiet.map quietStep).filter StepTrace.isBusy = [] := by
    simp [quietStep, StepTrace.isBusy]
  rw [Run.eventful, List.filter_append, none, List.append_nil, Run.eventful]

/-- A leap takes the eventful steps of a run and ends where the run does. -/
theorem leap_eq_eventful (scheduler : Scheduler) (start stop : Time) :
    scheduler.leap start stop = (scheduler.run start stop).eventful := by
  obtain ⟨quiet, same⟩ := poll_window scheduler start stop
  rw [leap_eq_eventful_poll scheduler start stop (Nat.le_refl _) fun time _ => Nat.le_max_left _ _,
    ← window, same, eventful_append_quiet]

/-- Nothing is reported of a quiet step. -/
@[simp] theorem report_quietStep (now : Time) : (quietStep now).report 0 = Report.zero := rfl

/-- A step in which nothing is handled is a quiet step. -/
theorem eq_quietStep_of_not_isBusy {trace : StepTrace} (quiet : ¬ trace.isBusy) :
    trace = quietStep trace.time := by
  obtain ⟨time, directives, repetitions⟩ := trace
  obtain ⟨rfl, rfl⟩ : directives = [] ∧ repetitions = [] := by simpa [StepTrace.isBusy] using quiet
  rfl

/-- No call is made in a quiet step. -/
theorem Run.calls_eventful (run : Run) : run.eventful.calls = run.calls := by
  rw [Run.calls, Run.calls, Run.eventful]
  induction run.steps with
  | nil => rfl
  | cons trace rest ih =>
    by_cases busy : trace.isBusy
    · rw [List.filter_cons_of_pos busy, List.flatMap_cons, List.flatMap_cons, ih]
    · rw [List.filter_cons_of_neg busy, List.flatMap_cons, ih, eq_quietStep_of_not_isBusy busy,
        calls_quietStep, List.nil_append]

/-- Nothing is counted in a quiet step. -/
theorem Run.report_eventful (run : Run) (declined : Nat) :
    run.eventful.report declined = run.report declined := by
  have summed (steps : List StepTrace) (before : Report) :
      (steps.filter StepTrace.isBusy).foldl (fun report trace => report.add (trace.report 0))
          before =
        steps.foldl (fun report trace => report.add (trace.report 0)) before := by
    induction steps generalizing before with
    | nil => rfl
    | cons trace rest ih =>
      by_cases busy : trace.isBusy
      · rw [List.filter_cons_of_pos busy, List.foldl_cons, List.foldl_cons, ih]
      · rw [List.filter_cons_of_neg busy, ih, List.foldl_cons, eq_quietStep_of_not_isBusy busy,
          report_quietStep, Report.add_zero]
  rw [Run.report, Run.report, Run.eventful, summed]

end Scheduler

/-- Stepping can jump from event to event. A step leaves a scheduler as it is, hands nothing over
and reports nothing exactly if the next event lies ahead of its time, if there is one at all.
Behind a step the next event lies ahead, and none is left exactly when the scheduler is finished.
So a run that polls at the events alone ends in the same scheduler as one that polls every time
of the window, hands the same calls to any dispatcher, and has the same report. -/
theorem leap_agrees_with_run {σ : Type} (dispatcher : Dispatcher σ) (initial : σ)
    (scheduler : Scheduler) (start stop : Time) :
    (∀ now : Time,
      let step := scheduler.step now
      let delivery := dispatcher.watched.deliver (initial, []) step.2.journal
      (step.1 = scheduler ∧ delivery.state = (initial, []) ∧
          step.2.report delivery.declined = Report.zero ↔
        ∀ time ∈ scheduler.nextEventTime?, now < time) ∧
      ∀ time ∈ step.1.nextEventTime?, now < time) ∧
    (scheduler.isFinished ↔ scheduler.nextEventTime? = none) ∧
    (let leap := scheduler.leap start stop
    let run := scheduler.run start stop
    let ofLeap := dispatcher.watched.deliver (initial, []) leap.journal
    let ofRun := dispatcher.watched.deliver (initial, []) run.journal
    leap.scheduler = run.scheduler ∧ ofLeap.state = ofRun.state ∧
      leap.report ofLeap.declined = run.report ofRun.declined) := by
  refine ⟨fun now => ⟨⟨?_, fun quiet => ?_⟩, Scheduler.isQuietUntil_step scheduler now⟩,
    Scheduler.nextEventTime?_eq_none_iff.symm, ?_⟩
  · rintro ⟨same, -, -⟩
    exact Scheduler.step_eq_self_iff.mp same
  · have still : scheduler.step now = (scheduler, Scheduler.quietStep now) :=
      Scheduler.step_of_isQuietUntil quiet
    rw [still]
    exact ⟨rfl, rfl, rfl⟩
  · intro leap run ofLeap ofRun
    have alike : leap = run.eventful := Scheduler.leap_eq_eventful scheduler start stop
    have sameCalls : journalCalls leap.journal = journalCalls run.journal := by
      rw [journalCalls_run, journalCalls_run, alike, Scheduler.Run.calls_eventful]
    have standing : ofLeap.standing = ofRun.standing :=
      deliver_congr sameCalls dispatcher.watched (initial, [])
    refine ⟨congrArg (·.scheduler) alike, congrArg Prod.fst standing, ?_⟩
    rw [show ofLeap.declined = ofRun.declined from congrArg Prod.snd standing, alike,
      Scheduler.Run.report_eventful]

end TimedCommands
