import TimedCommands.Proofs.Schedule.Events

/-!
# Polling a scheduler

A scheduler may be polled at any list of times. A run polls the times of its window and
stops once the scheduler is finished. Polling a finished scheduler changes nothing and
leaves an empty trace (`step_of_isFinished`), so a run ends in the same scheduler and has
the same steps as polling the whole window, except for empty ones at the end
(`poll_window`).
-/

namespace TimedCommands

/-- The times from `first` on that lie before `clock`, in order. -/
def times (first clock : Nat) : List Time :=
  (List.range' first (clock - first)).map UInt64.ofNat

/-- The times of a window in order, both ends included. -/
def window (start stop : Time) : List Time := times start.toNat (stop.toNat + 1)

/-- No time is between a time and itself. -/
theorem times_self (first : Nat) : times first first = [] := by
  simp [times]

/-- The first of the times is the one that they begin with. -/
theorem times_cons {first clock : Nat} (inside : first < clock) :
    times first clock = UInt64.ofNat first :: times (first + 1) clock := by
  have count : clock - first = (clock - (first + 1)) + 1 := by omega
  rw [times, count, List.range'_succ, List.map_cons, times]

/-- A clock that goes on by one adds one time at the end. -/
theorem times_succ {first clock : Nat} (inside : first ≤ clock) :
    times first (clock + 1) = times first clock ++ [UInt64.ofNat clock] := by
  have count : clock + 1 - first = (clock - first) + 1 := by omega
  rw [times, count, List.range'_1_concat, List.map_append, Nat.add_sub_cancel' inside]
  rfl

namespace Scheduler

variable {scheduler : Scheduler}

/-- Polls the times of a list one after the other, whatever they are. -/
def poll (scheduler : Scheduler) : List Time → Run
  | [] => ⟨scheduler, []⟩
  | now :: later =>
    let (next, trace) := scheduler.step now
    let rest := next.poll later
    ⟨rest.scheduler, trace :: rest.steps⟩

/-- Without a step, nothing happens. -/
@[simp] theorem poll_nil (scheduler : Scheduler) : scheduler.poll [] = ⟨scheduler, []⟩ := rfl

/-- Steps are taken one after the other. -/
@[simp] theorem poll_cons (scheduler : Scheduler) (now : Time) (later : List Time) :
    scheduler.poll (now :: later) =
      ⟨((scheduler.step now).1.poll later).scheduler,
        (scheduler.step now).2 :: ((scheduler.step now).1.poll later).steps⟩ := rfl

/-- Polling can be cut anywhere. -/
theorem poll_append (scheduler : Scheduler) (first second : List Time) :
    scheduler.poll (first ++ second) =
      ⟨((scheduler.poll first).scheduler.poll second).scheduler,
        (scheduler.poll first).steps ++ ((scheduler.poll first).scheduler.poll second).steps⟩ := by
  induction first generalizing scheduler with
  | nil => rfl
  | cons now later ih => simp [ih]

/-- A finished scheduler is at rest. -/
theorem step_of_isFinished (finished : scheduler.isFinished) (now : Time) :
    scheduler.step now = (scheduler, quietStep now) := by
  have noEvent := nextEventTime?_eq_none_iff.mpr finished
  refine step_of_isQuietUntil fun time isNext => ?_
  rw [noEvent] at isNext
  cases isNext

/-- A scheduler that is finished takes quiet steps only, and stays as it is. -/
theorem poll_of_isFinished (finished : scheduler.isFinished) (times : List Time) :
    scheduler.poll times = ⟨scheduler, times.map quietStep⟩ := by
  induction times with
  | nil => rfl
  | cons now later ih => simp [step_of_isFinished finished, ih]

/-- Polls the times of a list one after the other, until the scheduler is finished. -/
def runOver (scheduler : Scheduler) : List Time → Run
  | [] => ⟨scheduler, []⟩
  | now :: later =>
    let (next, trace) := scheduler.step now
    if next.isFinished then ⟨next, [trace]⟩
    else
      let rest := next.runOver later
      ⟨rest.scheduler, trace :: rest.steps⟩

/-- Running on from a time is running over the times that follow. -/
theorem runFrom_eq_runOver (scheduler : Scheduler) (remaining first : Nat)
    (taken : List StepTrace) :
    runFrom remaining (UInt64.ofNat first) scheduler taken =
      let run := scheduler.runOver (times first (first + remaining))
      (run.scheduler, run.steps.reverse ++ taken) := by
  induction remaining generalizing scheduler first taken with
  | zero => simp [times_self, runFrom, runOver]
  | succ remaining ih =>
    have successor : UInt64.ofNat first + 1 = UInt64.ofNat (first + 1) := by
      rw [UInt64.ofNat_add]
      rfl
    have shift : first + (remaining + 1) = first + 1 + remaining := by omega
    rw [times_cons (by omega), runFrom, shift, runOver, successor]
    by_cases finished : (scheduler.step (UInt64.ofNat first)).1.isFinished
    · simp [finished]
    · simp only [finished, Bool.false_eq_true, ↓reduceIte, ih, List.reverse_cons,
        List.append_assoc, List.singleton_append]

/-- A run over a window is one over its times. -/
theorem run_eq_runOver (scheduler : Scheduler) (start stop : Time) :
    scheduler.run start stop = scheduler.runOver (window start stop) := by
  have sameTimes : times start.toNat (start.toNat + (stop.toNat + 1 - start.toNat)) =
      window start stop := by
    rw [window, times, times, Nat.add_sub_cancel_left]
  have whole := runFrom_eq_runOver scheduler (stop.toNat + 1 - start.toNat) start.toNat []
  rw [UInt64.ofNat_toNat, sameTimes] at whole
  simp only [run, whole, List.append_nil, List.reverse_reverse]

/-- Running over times is polling them, but for quiet steps after the scheduler is finished. -/
theorem poll_eq_runOver (scheduler : Scheduler) (times : List Time) :
    ∃ quiet : List Time,
      scheduler.poll times =
        ⟨(scheduler.runOver times).scheduler,
          (scheduler.runOver times).steps ++ quiet.map quietStep⟩ := by
  induction times generalizing scheduler with
  | nil => exact ⟨[], rfl⟩
  | cons now later ih =>
    rw [poll_cons, runOver]
    by_cases finished : (scheduler.step now).1.isFinished
    · exact ⟨later, by simp [finished, poll_of_isFinished finished]⟩
    · obtain ⟨quiet, same⟩ := ih (scheduler.step now).1
      exact ⟨quiet, by simp [finished, same]⟩

/-- Steps over a whole window are those of a run, and quiet ones behind them. -/
theorem poll_window (scheduler : Scheduler) (start stop : Time) :
    ∃ quiet : List Time,
      scheduler.poll (window start stop) =
        ⟨(scheduler.run start stop).scheduler,
          (scheduler.run start stop).steps ++ quiet.map quietStep⟩ := by
  rw [run_eq_runOver]
  exact poll_eq_runOver scheduler _

/-- Nothing is called in a quiet step. -/
@[simp] theorem calls_quietStep (now : Time) : (quietStep now).calls = [] := rfl

/-- Stopping once the scheduler is finished loses no call. -/
theorem calls_poll_window (scheduler : Scheduler) (start stop : Time) :
    (scheduler.poll (window start stop)).calls = (scheduler.run start stop).calls := by
  obtain ⟨quiet, same⟩ := poll_window scheduler start stop
  have silent : (quiet.map quietStep).flatMap StepTrace.calls = [] := by
    simp [List.flatMap_map]
  rw [same, Run.calls, List.flatMap_append, silent, List.append_nil, Run.calls]

end Scheduler

end TimedCommands
