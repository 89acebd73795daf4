import TimedCommands.Dispatch.Recording
import TimedCommands.Proofs.Schedule.Leap

/-!
# Splitting a run

A window may be cut in two and run part by part: the second part finds the scheduler as the first
has left it, and nothing tells the two parts from a run over the whole window. Either part may stop
before its window ends, and the second takes a step even if nothing is left to do. Such steps are
quiet, and so are those that a run has saved itself by stopping. Without its quiet steps, a run is
polling its window (`eventful_poll_window`), and polling times one after the other can be cut
anywhere.
-/

namespace TimedCommands

namespace Report

/-- Nothing comes before a report. -/
theorem zero_add (report : Report) : zero.add report = report := by
  simp [add, zero]

/-- Reports add up in whatever way they are grouped. -/
theorem add_assoc (first second third : Report) :
    (first.add second).add third = first.add (second.add third) := by
  simp [add, Nat.add_assoc]

end Report

/-- The window up to a time and the window behind it make up the whole. -/
theorem window_append {start middle stop : Time} (notBefore : start ≤ middle)
    (before : middle < stop) :
    window start stop = window start middle ++ window (middle + 1) stop := by
  have first := UInt64.le_iff_toNat_le.mp notBefore
  have second := UInt64.lt_iff_toNat_lt.mp before
  have bounded := stop.toNat_lt_size
  have next : (middle + 1).toNat = middle.toNat + 1 := by
    rw [UInt64.toNat_add, UInt64.toNat_one]
    exact Nat.mod_eq_of_lt (by simp only [UInt64.size] at bounded; omega)
  have cut : start.toNat + (middle.toNat + 1 - start.toNat) = middle.toNat + 1 := by omega
  have count : stop.toNat + 1 - start.toNat =
      (middle.toNat + 1 - start.toNat) + (stop.toNat + 1 - (middle.toNat + 1)) := by omega
  rw [window, window, window, times, times, times, next, ← List.map_append, count,
    ← List.range'_append_1, cut]

namespace Scheduler

variable {start middle stop : Time}

/-- Without its quiet steps, a run is polling its window. -/
theorem eventful_poll_window (scheduler : Scheduler) (start stop : Time) :
    (scheduler.poll (window start stop)).eventful = (scheduler.run start stop).eventful := by
  obtain ⟨quiet, same⟩ := poll_window scheduler start stop
  rw [same, eventful_append_quiet]

/-- What a run handles is what its two parts handle, one after the other. -/
theorem eventful_run_split (scheduler : Scheduler) (notBefore : start ≤ middle)
    (before : middle < stop) :
    let first := scheduler.run start middle
    let second := first.scheduler.run (middle + 1) stop
    (scheduler.run start stop).eventful =
      ⟨second.scheduler, first.eventful.steps ++ second.eventful.steps⟩ := by
  intro first second
  have firstPolled := eventful_poll_window scheduler start middle
  have secondPolled := eventful_poll_window first.scheduler (middle + 1) stop
  have sameMiddle : (scheduler.poll (window start middle)).scheduler = first.scheduler :=
    congrArg (·.scheduler) firstPolled
  rw [← eventful_poll_window, window_append notBefore before, poll_append, sameMiddle,
    ← firstPolled, ← secondPolled]
  exact congrArg₂ Run.mk (congrArg (·.scheduler) secondPolled) (List.filter_append ..)

namespace Run

/-- The calls of steps are those of the first and those of the others. -/
theorem calls_append (last : Scheduler) (first second : List StepTrace) :
    (⟨last, first ++ second⟩ : Run).calls = first.flatMap StepTrace.calls ++
      second.flatMap StepTrace.calls :=
  List.flatMap_append

/-- The report of a run of one step is that of the step. -/
theorem report_singleton (last : Scheduler) (trace : StepTrace) (declined : Nat) :
    (⟨last, [trace]⟩ : Run).report declined = trace.report declined := by
  simp only [report, List.foldl_cons, List.foldl_nil, Report.zero_add]
  rfl

/-- The report of steps in two parts is that of the parts together. -/
theorem report_append (first second : Run) (declined declinedLater : Nat) :
    (⟨second.scheduler, first.steps ++ second.steps⟩ : Run).report (declined + declinedLater) =
      (first.report declined).add (second.report declinedLater) := by
  have summed (steps : List StepTrace) (before : Report) :
      steps.foldl (fun report trace => report.add (trace.report 0)) before =
        before.add (steps.foldl (fun report trace => report.add (trace.report 0)) .zero) := by
    induction steps generalizing before with
    | nil => simp
    | cons trace rest ih =>
      rw [List.foldl_cons, List.foldl_cons, ih, ih (Report.zero.add _), Report.zero_add,
        Report.add_assoc]
  simp only [report, List.foldl_append]
  rw [summed second.steps]
  rfl

end Run

end Scheduler

/-- A run over a window comes to the same as a run over its first part and, with the scheduler that
this leaves, a run over the rest. The scheduler has the same groups, pending directives and
sequences at the end, a dispatcher that works for both parts is handed the same calls in the same
order and is left in the same state, and the reports of the parts add up to that of the whole. -/
theorem split_run_agrees_with_run {σ : Type} (dispatcher : Dispatcher σ) (initial : σ)
    (scheduler : Scheduler) {start middle stop : Time} (notBefore : start ≤ middle)
    (before : middle < stop) :
    let whole := scheduler.run start stop
    let first := scheduler.run start middle
    let second := first.scheduler.run (middle + 1) stop
    let ofWhole := dispatcher.watched.deliver (initial, []) whole.journal
    let ofFirst := dispatcher.watched.deliver (initial, []) first.journal
    let ofSecond := dispatcher.watched.deliver ofFirst.state second.journal
    second.scheduler = whole.scheduler ∧ ofSecond.state = ofWhole.state ∧
      (first.report ofFirst.declined).add (second.report ofSecond.declined) =
        whole.report ofWhole.declined := by
  intro whole first second ofWhole ofFirst ofSecond
  have split : whole.eventful = ⟨second.scheduler, first.eventful.steps ++ second.eventful.steps⟩ :=
    Scheduler.eventful_run_split scheduler notBefore before
  have calls : whole.calls = first.calls ++ second.calls := by
    rw [← whole.calls_eventful, split, Scheduler.Run.calls_append, ← first.calls_eventful,
      ← second.calls_eventful]
    rfl
  have standing : ofWhole.standing = (ofSecond.state, ofFirst.declined + ofSecond.declined) := by
    apply standing_deliver_split
    rwa [journalCalls_run, journalCalls_run, journalCalls_run]
  refine ⟨(congrArg (·.scheduler) split).symm, (congrArg Prod.fst standing).symm, ?_⟩
  calc (first.report ofFirst.declined).add (second.report ofSecond.declined)
      = (first.eventful.report ofFirst.declined).add
          (second.eventful.report ofSecond.declined) := by
        rw [first.report_eventful, second.report_eventful]
    _ = whole.eventful.report (ofFirst.declined + ofSecond.declined) := by
        rw [← Scheduler.Run.report_append, split]
        rfl
    _ = whole.report ofWhole.declined := by
        rw [whole.report_eventful, show ofWhole.declined = _ from congrArg Prod.snd standing]

/-- A scheduler that moves a group three times, every four units of time from 2 on. -/
def threefold : Scheduler :=
  ⟨(CommandTypes.ofList [("move", 1)]).arity,
    [⟨2, "G", .createGroup⟩, ⟨2, "G", .addCommand "move" ["x"]⟩,
      ⟨2, "G", .bindSequence ⟨1, "x"⟩ (.integer 5) (.integer 1)⟩, ⟨2, "G", .executeSequence 3 4⟩],
    .empty⟩

/-- Cut at a slot, its run makes two calls before the cut and one behind it, all of them
declined. -/
theorem split_run_of_threefold :
    let dispatcher := Recording.dispatcher fun _ => false
    let first := threefold.run 0 6
    let second := first.scheduler.run 7 20
    let whole := threefold.run 0 20
    let ofFirst := dispatcher.watched.deliver (.empty, []) first.journal
    let ofSecond := dispatcher.watched.deliver ofFirst.state second.journal
    let ofWhole := dispatcher.watched.deliver (.empty, []) whole.journal
    (0 : Time) ≤ 6 ∧ (6 : Time) < 20 ∧ ofFirst.state.2.map (·.time) = [2, 6] ∧
      ofSecond.state.2.map (·.time) = [2, 6, 10] ∧ ofWhole.state = ofSecond.state ∧
      (first.report ofFirst.declined).declined = 2 ∧
      (whole.report ofWhole.declined).declined = 3 := by
  intro dispatcher first second whole ofFirst ofSecond ofWhole
  have notBefore : (0 : Time) ≤ 6 := by decide
  have before : (6 : Time) < 20 := by decide
  obtain ⟨-, sameState, sameReport⟩ :=
    split_run_agrees_with_run dispatcher .empty threefold notBefore before
  have declined : ofFirst.declined = 2 ∧ ofSecond.declined = 1 := by decide +kernel
  refine ⟨notBefore, before, by decide +kernel, by decide +kernel, sameState.symm, declined.1, ?_⟩
  rw [← show _ = whole.report ofWhole.declined from sameReport]
  exact congrArg₂ (· + ·) declined.1 declined.2

end TimedCommands
