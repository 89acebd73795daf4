import TimedCommands.Proofs.Dispatch.Delivery
import TimedCommands.Proofs.Schedule.Polling
import TimedCommands.Proofs.Schedule.Step

/-!
# The timetable of a program

What a run hands over can be told without a scheduler. At each time of the window, every
sequence that was started since the window began makes the calls of those repetitions
whose slot is at this very time, and the groups are those that the directives of the
window up to this time build; see `Timetable.calls`. `run_follows_timetable` shows that
every dispatcher is handed exactly these calls.

The invariant behind it is `Tracks`: between two steps, the groups of the scheduler are
those of the timetable, its sequences are those of the timetable with all repetitions
behind whose slot has passed, and the directives of times to come are still pending.
-/

namespace TimedCommands

namespace Timetable

/-- The directives that fire at the times of a list: by time, and within a time in input
order. -/
def firing (directives : List Directive) (times : List Time) : List Directive :=
  times.flatMap fun time => directives.filter (·.time = time)

/-- The groups at a time of a window that begins at `start`. -/
def registry (arity : ArityLookup) (directives : List Directive) (start now : Time) : Registry :=
  (RunState.empty.build arity (firing directives (window start now))).registry

/-- The sequences that were started up to a time of a window that begins at `start`. -/
def sequences (arity : ArityLookup) (directives : List Directive) (start now : Time) :
    List ScheduledSequence :=
  (RunState.succeeding arity .empty (firing directives (window start now))).filterMap
    Directive.sequence?

/-- The calls of a repetition at a time: one for each command that its group resolves to, in order,
with the type and the arguments of that command. There are none if there is no such group, or if
the group does not resolve. -/
def callsOf (groups : List Group) (name : GroupName) (iteration : Nat) (now : Time) : List Call :=
  match groups.find? fun group => group.name = name with
  | none => []
  | some group =>
    match group.resolve iteration with
    | .error _ => []
    | .ok commands => commands.map fun command =>
      { time := now, typeName := command.typeName, arguments := command.arguments }

/-- The calls at a time of a window that begins at `start`: those of the repetitions whose slot it
is. -/
def callsAt (arity : ArityLookup) (directives : List Directive) (start now : Time) : List Call :=
  (sequences arity directives start now).flatMap fun sequence =>
    ((List.range sequence.total).filter (sequence.slotTime · = now)).flatMap fun iteration =>
      callsOf (registry arity directives start now).groups sequence.group iteration now

/-- The calls that a step makes for a repetition are those that the timetable names. -/
theorem repetitionCalls_eq_callsOf (registry : Registry) (name : GroupName) (iteration : Nat)
    (now : Time) :
    registry.repetitionCalls name iteration now = callsOf registry.groups name iteration now := by
  rw [Registry.repetitionCalls, Registry.get, Registry.find?, callsOf]
  cases registry.groups.find? fun group => group.name = name with
  | none => rfl
  | some group =>
    cases resolved : group.resolve iteration <;>
      simp [Except.bind, resolved, RepetitionTrace.callOf]

/-- The calls of a window. -/
def calls (arity : ArityLookup) (directives : List Directive) (start stop : Time) : List Call :=
  (window start stop).flatMap (callsAt arity directives start)

end Timetable

/-- A sequence stands before a time: its repetitions are behind exactly if their slots lie
before it. -/
def ScheduledSequence.StandsBefore (clock : Nat) (fresh current : ScheduledSequence) : Prop :=
  current = { fresh with completed := current.completed } ∧
    ∀ iteration, iteration < current.completed ↔
      iteration < fresh.total ∧ (fresh.slotTime iteration).toNat < clock

namespace ScheduledSequence

variable {fresh current : ScheduledSequence} {clock : Nat} {now : Time}

/-- Of a sequence that stands before a time, what is due at that very time is told by its slots. -/
theorem StandsBefore.due (stands : fresh.StandsBefore now.toNat current) :
    (current.dueIterations now).filter (current.slotTime · = now) =
      (List.range fresh.total).filter (fresh.slotTime · = now) := by
  obtain ⟨same, behind⟩ := stands
  have sameTotal : current.total = fresh.total := by rw [same]
  have sameSlot : current.slotTime = fresh.slotTime := by rw [same]; rfl
  rw [dueIterations_eq_filter, List.filter_filter, sameTotal, sameSlot]
  refine List.filter_congr fun iteration _ => ?_
  by_cases punctual : fresh.slotTime iteration = now
  · have ahead : current.completed ≤ iteration := by
      by_contra fewer
      obtain ⟨-, passed⟩ := (behind iteration).mp (Nat.lt_of_not_le fewer)
      rw [punctual] at passed
      exact Nat.lt_irrefl _ passed
    simp [punctual, ahead]
  · simp [punctual]

/-- A sequence is for the same group wherever it stands. -/
theorem StandsBefore.group (stands : fresh.StandsBefore clock current) :
    current.group = fresh.group := by
  rw [stands.1]

/-- Sequences that stand before a time make the calls of the repetitions at that time. -/
theorem calls_of_standBefore {planned running : List ScheduledSequence}
    (stand : List.Forall₂ (StandsBefore now.toNat) planned running) (registry : Registry) :
    (running.flatMap fun sequence =>
        ((sequence.dueIterations now).filter (sequence.slotTime · = now)).flatMap fun iteration =>
          registry.repetitionCalls sequence.group iteration now) =
      planned.flatMap fun sequence =>
        ((List.range sequence.total).filter (sequence.slotTime · = now)).flatMap fun iteration =>
          registry.repetitionCalls sequence.group iteration now := by
  induction stand with
  | nil => rfl
  | cons stands _ ih => rw [List.flatMap_cons, List.flatMap_cons, ih, stands.due, stands.group]

/-- A sequence that stands before a time and catches up stands before the next one. -/
theorem StandsBefore.advanceTo (stands : fresh.StandsBefore now.toNat current) :
    fresh.StandsBefore (now.toNat + 1) (current.advanceTo now) := by
  obtain ⟨same, behind⟩ := stands
  have sameTotal : current.total = fresh.total := by rw [same]
  have sameSlot : current.slotTime = fresh.slotTime := by rw [same]; rfl
  refine ⟨by rw [same]; rfl, fun iteration => ?_⟩
  change iteration < current.completedAt now ↔ _
  rw [lt_completedAt_iff, behind, sameTotal, sameSlot, UInt64.le_iff_toNat_le]
  omega

/-- A sequence that has just been started has nothing behind, and no slot before its start. -/
theorem standsBefore_of_sequence? {directive : Directive}
    (starts : directive.sequence? = some fresh) (punctual : directive.time = now) :
    fresh.StandsBefore now.toNat fresh := by
  obtain ⟨-, start, completed⟩ := Directive.start_of_sequence? starts
  refine ⟨rfl, fun iteration => ?_⟩
  have notEarlier := UInt64.le_iff_toNat_le.mp (start_le_slotTime fresh iteration)
  rw [start, punctual] at notEarlier
  omega

end ScheduledSequence

/-- What the directives of a window build before a time. -/
def Timetable.built (arity : ArityLookup) (directives : List Directive) (start : Time)
    (clock : Nat) : RunState :=
  RunState.empty.build arity (firing directives (times start.toNat clock))

/-- A scheduler has handled the times of a window that lie before `clock`, and no others. -/
structure Tracks (arity : ArityLookup) (directives : List Directive) (start : Time) (clock : Nat)
    (scheduler : Scheduler) : Prop where
  sameArity : scheduler.arity = arity
  ordered : InFiringOrder scheduler.pending
  samePending : ∀ time : Time, clock ≤ time.toNat →
    scheduler.pending.filter (·.time = time) = directives.filter (·.time = time)
  sameRegistry : scheduler.state.registry = (Timetable.built arity directives start clock).registry
  sequencesStand : List.Forall₂ (ScheduledSequence.StandsBefore clock)
    (Timetable.built arity directives start clock).sequences scheduler.state.sequences

namespace Tracks

variable {arity : ArityLookup} {directives : List Directive} {start now : Time} {clock : Nat}
  {scheduler : Scheduler}

/-- A new scheduler is on track at the start. -/
theorem create (arity : ArityLookup) (directives : List Directive) (start : Time) :
    Tracks arity directives start start.toNat (Scheduler.create arity directives) where
  sameArity := rfl
  ordered := inFiringOrder_firingOrder directives
  samePending time _ := filter_time_firingOrder directives time
  sameRegistry := by
    rw [Timetable.built, times_self]
    rfl
  sequencesStand := by
    rw [Timetable.built, times_self]
    exact .nil

/-- The directives of one more time are built on those before. -/
theorem built_succ (inside : start ≤ now) :
    Timetable.built arity directives start (now.toNat + 1) =
      (Timetable.built arity directives start now.toNat).build arity
        (directives.filter (·.time = now)) := by
  rw [Timetable.built, times_succ (UInt64.le_iff_toNat_le.mp inside), Timetable.firing,
    List.flatMap_append, RunState.build_append, UInt64.ofNat_toNat, List.flatMap_singleton]
  rfl

/-- On track, a step builds what the directives of its time build. -/
theorem built_eq (tracks : Tracks arity directives start now.toNat scheduler) :
    scheduler.built now = scheduler.state.build arity (directives.filter (·.time = now)) := by
  rw [Scheduler.built, tracks.sameArity, tracks.samePending now (Nat.le_refl _)]

/-- What a step builds has the groups of the timetable. -/
theorem registry_built (tracks : Tracks arity directives start now.toNat scheduler)
    (inside : start ≤ now) :
    (scheduler.built now).registry =
      (Timetable.built arity directives start (now.toNat + 1)).registry := by
  rw [tracks.built_eq, built_succ inside]
  exact RunState.registry_build_congr tracks.sameRegistry _

/-- The sequences that a step starts are those of the timetable, with nothing behind. -/
theorem sequences_built (tracks : Tracks arity directives start now.toNat scheduler)
    (inside : start ≤ now) :
    List.Forall₂ (ScheduledSequence.StandsBefore now.toNat)
      (Timetable.built arity directives start (now.toNat + 1)).sequences
      (scheduler.built now).sequences := by
  rw [tracks.built_eq, built_succ inside, RunState.sequences_build, RunState.sequences_build,
    RunState.succeeding_congr tracks.sameRegistry]
  refine List.rel_append tracks.sequencesStand (List.forall₂_same.mpr fun sequence member => ?_)
  obtain ⟨directive, succeeds, starts⟩ := List.mem_filterMap.mp member
  have fires := RunState.mem_of_mem_succeeding succeeds
  have punctual : directive.time = now := by simpa using (List.mem_filter.mp fires).2
  exact ScheduledSequence.standsBefore_of_sequence? starts punctual

/-- A scheduler that is on track is so after one more step. -/
theorem step (tracks : Tracks arity directives start now.toNat scheduler) (inside : start ≤ now) :
    Tracks arity directives start (now.toNat + 1) (scheduler.step now).1 := by
  rw [Scheduler.step_scheduler tracks.ordered]
  refine ⟨tracks.sameArity, tracks.ordered.filter _, fun time later => ?_,
    tracks.registry_built inside, ?_⟩
  · rw [← tracks.samePending time (by omega), List.filter_filter]
    refine List.filter_congr fun directive _ => ?_
    by_cases punctual : directive.time = time
    · have ahead : now < time := UInt64.lt_iff_toNat_lt.mpr later
      simp [punctual, ahead]
    · simp [punctual]
  · rw [List.forall₂_map_right_iff]
    exact (tracks.sequences_built inside).imp fun fresh current stands => stands.advanceTo

/-- The calls of a step are those of the timetable. -/
theorem calls_step (tracks : Tracks arity directives start now.toNat scheduler)
    (inside : start ≤ now) :
    (scheduler.step now).2.calls = Timetable.callsAt arity directives start now := by
  have sameSequences : Timetable.sequences arity directives start now =
      (Timetable.built arity directives start (now.toNat + 1)).sequences := by
    rw [Timetable.built, RunState.sequences_build]
    rfl
  rw [Scheduler.calls_step tracks.ordered, tracks.registry_built inside,
    ScheduledSequence.calls_of_standBefore (tracks.sequences_built inside), Timetable.callsAt,
    sameSequences]
  simp only [Timetable.repetitionCalls_eq_callsOf]
  rfl

/-- Polling on from a time makes the calls of the timetable from there on. -/
theorem calls_poll (tracks : Tracks arity directives start clock scheduler)
    (inside : start.toNat ≤ clock) {count : Nat} (bounded : clock + count ≤ UInt64.size) :
    (scheduler.poll (times clock (clock + count))).calls =
      (times clock (clock + count)).flatMap (Timetable.callsAt arity directives start) := by
  induction count generalizing clock scheduler with
  | zero => simp [times_self, Scheduler.Run.calls]
  | succ count ih =>
    obtain ⟨now, rfl⟩ : ∃ now : Time, now.toNat = clock :=
      ⟨UInt64.ofNat clock, UInt64.toNat_ofNat_of_lt' (by omega)⟩
    have started : start ≤ now := UInt64.le_iff_toNat_le.mpr inside
    have shift : now.toNat + (count + 1) = now.toNat + 1 + count := by omega
    have rest := ih (tracks.step started) (by omega) (by omega)
    rw [times_cons (by omega), shift, UInt64.ofNat_toNat, Scheduler.poll_cons, List.flatMap_cons,
      ← rest, ← tracks.calls_step started]
    rfl

end Tracks

/-- Polling a window of a new scheduler makes the calls of the timetable. -/
theorem calls_poll_create (arity : ArityLookup) (directives : List Directive) (start stop : Time) :
    ((Scheduler.create arity directives).poll (window start stop)).calls =
      Timetable.calls arity directives start stop := by
  rcases Nat.lt_or_ge stop.toNat start.toNat with backward | inside
  · have nothing : window start stop = [] := by
      simp [window, times, Nat.sub_eq_zero_of_le backward]
    simp [Timetable.calls, nothing, Scheduler.Run.calls]
  · have bounded : start.toNat + (stop.toNat + 1 - start.toNat) ≤ UInt64.size := by
      have := stop.toNat_lt_size
      omega
    have polled := (Tracks.create arity directives start).calls_poll (Nat.le_refl _) bounded
    rwa [Nat.add_sub_cancel' (by omega)] at polled

/-- The calls that a run hands to a dispatcher, whatever it answers, are those of the timetable,
in order. Stopping once nothing is left to do loses none of them. -/
theorem run_follows_timetable {σ : Type} (arity : ArityLookup) (directives : List Directive)
    (start stop : Time) (dispatcher : Dispatcher σ) (initial : σ) :
    let scheduler := Scheduler.create arity directives
    (dispatcher.watched.deliver (initial, []) (scheduler.run start stop).journal).state.2 =
        Timetable.calls arity directives start stop ∧
      (scheduler.run start stop).calls = (scheduler.poll (window start stop)).calls := by
  intro scheduler
  have polled := Scheduler.calls_poll_window scheduler start stop
  refine ⟨?_, polled.symm⟩
  rw [calls_watched, journalCalls_run, ← polled]
  exact calls_poll_create arity directives start stop

end TimedCommands
