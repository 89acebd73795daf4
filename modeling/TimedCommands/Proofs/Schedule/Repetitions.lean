import TimedCommands.Proofs.Dispatch.Delivery
import TimedCommands.Proofs.Schedule.Started

/-!
# Every repetition is handled once

A scheduler may be polled at any times once a sequence has been started. Each repetition is then
handled in the first step that comes at or after its slot, and in no other: it runs if the step
comes at the very time of the slot, and has missed its step otherwise
(`ScheduledSequence.Becomes`). Slots never come earlier as repetitions go on, so the repetitions
that are behind are always the first ones (`repetitions_handled_once`).

What happens to one sequence does not depend on the others. `turns` follows a sequence on its own
through a list of times, `Scheduler.shares` picks the traces of the sequence at a position out of
the steps of a scheduler, and `iterations_shares` says that they agree.
-/

namespace TimedCommands

namespace RepetitionOutcome

/-- Whether a repetition was run: its commands were handed over, or it was reported as failed. -/
def isRun : RepetitionOutcome → Bool
  | .ran _ => true
  | .failed _ => true
  | .missed _ => false

/-- The calls that are due to an outcome at a time. -/
def calls (now : Time) : RepetitionOutcome → List Call
  | .ran commands => commands.map fun command =>
    { time := now, typeName := command.typeName, arguments := command.arguments }
  | .failed _ => []
  | .missed _ => []

/-- The fault that an outcome reports. -/
def fault? : RepetitionOutcome → Option Fault
  | .ran _ => none
  | .failed fault => some fault
  | .missed _ => none

end RepetitionOutcome

/-- What becomes of a repetition in the first step that reaches its slot. At the very time of the
slot it is run: its group resolves to the commands that are handed over, or the fault is reported.
In a later step it has missed its slot. -/
inductive ScheduledSequence.Becomes (sequence : ScheduledSequence) (groups : List Group) (now : Time)
    (iteration : Nat) : RepetitionOutcome → Prop where
  | ran {group : Group} {commands : List ResolvedCommand}
      (punctual : sequence.slotTime iteration = now)
      (found : groups.find? (fun group => group.name = sequence.group) = some group)
      (resolves : group.resolve iteration = .ok commands) :
      Becomes sequence groups now iteration (.ran commands)
  | failed {group : Group} {fault : Fault}
      (punctual : sequence.slotTime iteration = now)
      (found : groups.find? (fun group => group.name = sequence.group) = some group)
      (fails : group.resolve iteration = .error fault) :
      Becomes sequence groups now iteration (.failed fault)
  | unknown
      (punctual : sequence.slotTime iteration = now)
      (absent : groups.find? (fun group => group.name = sequence.group) = none) :
      Becomes sequence groups now iteration (.failed (.groupNotFound sequence.group))
  | missed (late : sequence.slotTime iteration < now) :
      Becomes sequence groups now iteration (.missed (sequence.slotTime iteration))

/-- What becomes of a repetition does not depend on how far its sequence has come. -/
theorem ScheduledSequence.Becomes.advanceTo {sequence : ScheduledSequence} {groups : List Group}
    {now : Time} {iteration : Nat} {outcome : RepetitionOutcome}
    (becomes : sequence.Becomes groups now iteration outcome) (time : Time) :
    (sequence.advanceTo time).Becomes groups now iteration outcome := by
  cases becomes with
  | ran punctual found resolves => exact .ran punctual found resolves
  | failed punctual found fails => exact .failed punctual found fails
  | unknown punctual absent => exact .unknown punctual absent
  | missed late =>
    -- The slot time is one field of both sequences, though it is written for one of them.
    change Becomes _ groups now iteration (.missed ((sequence.advanceTo time).slotTime iteration))
    exact .missed late

/-- A list of times that is not empty has a latest one. -/
theorem exists_latest (first : Time) (later : List Time) :
    ∃ latest ∈ first :: later, ∀ now ∈ first :: later, now ≤ latest := by
  induction later generalizing first with
  | nil => exact ⟨first, by simp, by simp⟩
  | cons second rest ih =>
    obtain ⟨latest, member, greatest⟩ := ih second
    rcases UInt64.le_total first latest with before | behind
    · exact ⟨latest, .tail _ member, List.forall_mem_cons.mpr ⟨before, greatest⟩⟩
    · refine ⟨first, .head _, List.forall_mem_cons.mpr ⟨UInt64.le_refl _, ?_⟩⟩
      intro now isTime
      exact UInt64.le_trans (greatest now isTime) behind

namespace ScheduledSequence

variable {sequence : ScheduledSequence} {now latest : Time} {iteration : Nat} {times : List Time}

/-- The repetitions that each of the steps at a list of times handles. -/
def turns (sequence : ScheduledSequence) : List Time → List (List Nat)
  | [] => []
  | now :: later => sequence.dueIterations now :: (sequence.advanceTo now).turns later

/-- Taken together, the steps handle the repetitions from where the sequence stood to where it
gets, in order. -/
theorem flatten_turns (sequence : ScheduledSequence) (times : List Time) :
    (sequence.turns times).flatten =
      List.range' sequence.completed
        ((sequence.advanceAll times).completed - sequence.completed) := by
  induction times generalizing sequence with
  | nil => simp [turns, advanceAll]
  | cons now later ih =>
    have first := completed_le_completedAt sequence now
    have rest := completed_le_advanceAll (sequence.advanceTo now) later
    have middle : (sequence.advanceTo now).completed = sequence.completedAt now := rfl
    rw [middle] at rest
    have parts : ((sequence.advanceTo now).advanceAll later).completed - sequence.completed =
        (sequence.completedAt now - sequence.completed) +
          (((sequence.advanceTo now).advanceAll later).completed - sequence.completedAt now) := by
      omega
    rw [turns, List.flatten_cons, ih, advanceAll_cons, parts, ← List.range'_append_1, dueIterations,
      middle, Nat.add_sub_cancel' first]

/-- A step handles the repetitions whose slot it is the first to reach. -/
theorem getElem?_turns {index : Nat} {own : List Nat}
    (isTurn : (sequence.turns times)[index]? = some own) :
    own = (List.range sequence.total).filter fun iteration =>
      sequence.completed ≤ iteration ∧
        times.findIdx? (sequence.slotTime iteration ≤ ·) = some index := by
  induction times generalizing sequence index with
  | nil => cases isTurn
  | cons now later ih =>
    cases index with
    | zero =>
      cases isTurn
      rw [dueIterations_eq_filter]
      refine List.filter_congr fun iteration _ => ?_
      by_cases due : sequence.slotTime iteration ≤ now <;> simp [List.findIdx?_cons, due]
    | succ index =>
      rw [ih isTurn]
      refine List.filter_congr fun iteration member => ?_
      have within : iteration < sequence.total := List.mem_range.mp member
      have sameSlot : (sequence.advanceTo now).slotTime = sequence.slotTime := rfl
      have ahead : (sequence.advanceTo now).completed ≤ iteration ↔
          sequence.completed ≤ iteration ∧ ¬ sequence.slotTime iteration ≤ now := by
        have behind : iteration < (sequence.advanceTo now).completed ↔ _ := lt_completedAt_iff
        rw [← Nat.not_lt, behind]
        simp [within]
      rw [sameSlot, decide_eq_decide, ahead]
      by_cases due : sequence.slotTime iteration ≤ now <;> simp [List.findIdx?_cons, due]

/-- A sequence of which nothing was behind has come as far as the latest step reaches. -/
theorem range_completed_advanceAll (fresh : sequence.completed = 0)
    (isTime : latest ∈ times) (isLatest : ∀ now ∈ times, now ≤ latest) :
    List.range (sequence.advanceAll times).completed =
      (List.range sequence.total).filter fun iteration =>
        sequence.slotTime iteration ≤ latest := by
  refine List.pairwise_lt_range.eq_of_mem_iff (List.pairwise_lt_range.filter _)
    fun iteration => ?_
  rw [List.mem_range, lt_completed_advanceAll_iff, fresh, List.mem_filter, List.mem_range,
    decide_eq_true_eq]
  constructor
  · rintro (behind | ⟨within, now, member, come⟩)
    · omega
    · exact ⟨within, UInt64.le_trans come (isLatest now member)⟩
  · rintro ⟨within, come⟩
    exact .inr ⟨within, latest, isTime, come⟩

/-- A sequence that is on its way has completed something, and is done once that is all. -/
theorem state_of_underway (underway : 1 ≤ sequence.completed)
    (within : sequence.completed ≤ sequence.total) :
    sequence.state =
      if sequence.completed = sequence.total then .done else .running sequence.completed := by
  rw [state, isDone]
  by_cases all : sequence.completed = sequence.total
  · simp [all]
  · have left : ¬ sequence.total ≤ sequence.completed := by omega
    have some : sequence.completed ≠ 0 := by omega
    simp [all, left, some]

/-- From the step of its start on, a sequence is on its way or done. -/
theorem state_advanceAll (fresh : sequence.completed = 0) (repeats : 1 ≤ sequence.total)
    (isTime : sequence.start ∈ times) :
    (sequence.advanceAll times).state =
      if (sequence.advanceAll times).completed = sequence.total then .done
      else .running (sequence.advanceAll times).completed := by
  have total : (sequence.advanceAll times).total = sequence.total := by rw [advanceAll_eq]
  have first : sequence.slotTime 0 ≤ sequence.start := by
    rw [UInt64.le_iff_toNat_le, toNat_slotTime]
    omega
  have underway : 1 ≤ (sequence.advanceAll times).completed :=
    lt_completed_advanceAll_iff.mpr (.inr ⟨repeats, sequence.start, isTime, first⟩)
  have within : (sequence.advanceAll times).completed ≤ sequence.total := by
    by_contra beyond
    rcases lt_completed_advanceAll_iff.mp (Nat.lt_of_not_le beyond) with before | ⟨below, -⟩
    · omega
    · omega
  rw [state_of_underway underway (total ▸ within), total]

end ScheduledSequence

namespace Scheduler

variable {scheduler : Scheduler} {now time : Time} {position index : Nat}
  {sequence : ScheduledSequence} {times : List Time}

/-- The repetitions of the sequence at a position that a step handles. -/
def repetitionsAt (scheduler : Scheduler) (position : Nat) (now : Time) : List RepetitionTrace :=
  match (scheduler.afterDirectives now).sequences[position]? with
  | some sequence => handleSequence (scheduler.afterDirectives now).registry now sequence
  | none => []

/-- The repetitions of the sequence at a position, for each of the steps at a list of times. -/
def shares (scheduler : Scheduler) (position : Nat) : List Time → List (List RepetitionTrace)
  | [] => []
  | now :: later =>
    scheduler.repetitionsAt position now :: (scheduler.step now).1.shares position later

/-- The repetitions of a step are those of its sequences, one position after the other. -/
theorem repetitions_step_eq_flatMap (scheduler : Scheduler) (now : Time) {count : Nat}
    (enough : (scheduler.step now).1.state.sequences.length ≤ count) :
    (scheduler.step now).2.repetitions =
      (List.range count).flatMap fun position => scheduler.repetitionsAt position now := by
  rw [sequences_step, List.length_map] at enough
  rw [repetitions_step]
  simp only [repetitionsAt]
  generalize (scheduler.afterDirectives now).registry = registry
  generalize (scheduler.afterDirectives now).sequences = sequences at enough ⊢
  induction sequences generalizing count with
  | nil => simp
  | cons first rest ih =>
    obtain ⟨fewer, rfl⟩ : ∃ fewer, count = fewer + 1 := ⟨count - 1, by simp at enough; omega⟩
    have restEnough : rest.length ≤ fewer := by simpa using enough
    rw [List.flatMap_cons, ih restEnough, List.range_succ_eq_map, List.flatMap_cons,
      List.flatMap_map]
    rfl

/-- No sequence is lost over any number of steps. -/
theorem length_sequences_poll (scheduler : Scheduler) (times : List Time) :
    scheduler.state.sequences.length ≤
      (scheduler.poll times).scheduler.state.sequences.length := by
  induction times generalizing scheduler with
  | nil => exact Nat.le_refl _
  | cons now later ih => exact Nat.le_trans (scheduler.length_sequences_step now) (ih _)

/-- The repetitions of each step of a run are the shares of its sequences. -/
theorem repetitions_poll_eq_flatMap (scheduler : Scheduler) {step : StepTrace}
    (isStep : (scheduler.poll times).steps[index]? = some step) {count : Nat}
    (enough : (scheduler.poll times).scheduler.state.sequences.length ≤ count) :
    step.repetitions =
      (List.range count).flatMap fun position =>
        (scheduler.shares position times)[index]?.getD [] := by
  induction times generalizing scheduler index with
  | nil => cases isStep
  | cons now later ih =>
    rw [poll_cons] at isStep enough
    cases index with
    | zero =>
      cases isStep
      have grown := length_sequences_poll (scheduler.step now).1 later
      exact scheduler.repetitions_step_eq_flatMap now (Nat.le_trans grown enough)
    | succ index => exact ih _ isStep enough

/-- The repetitions at a position are those of the sequence that stands there after the
directives. -/
theorem repetitionsAt_eq
    (stands : (scheduler.afterDirectives now).sequences[position]? = some sequence) :
    scheduler.repetitionsAt position now =
      handleSequence (scheduler.afterDirectives now).registry now sequence := by
  rw [repetitionsAt, stands]

/-- The iterations that a sequence handles are those that are due. -/
theorem iterations_handleSequence (registry : Registry) (now : Time)
    (sequence : ScheduledSequence) :
    (handleSequence registry now sequence).map (·.iteration) = sequence.dueIterations now := by
  rw [handleSequence, List.map_map]
  exact List.map_id _

/-- Polled from the step on in which it stands at a position, a sequence takes its turns as it would
alone. -/
theorem iterations_shares
    (stands : (scheduler.afterDirectives now).sequences[position]? = some sequence)
    (later : List Time) :
    (scheduler.shares position (now :: later)).map (List.map (·.iteration)) =
      sequence.turns (now :: later) := by
  induction later generalizing scheduler now sequence with
  | nil =>
    rw [shares, repetitionsAt_eq stands, List.map_cons, iterations_handleSequence]
    rfl
  | cons next later ih =>
    have turns := ih (getElem?_afterDirectives (getElem?_step stands) next)
    rw [shares, repetitionsAt_eq stands, List.map_cons, iterations_handleSequence, turns]
    rfl

/-- A repetition at a position is of its group, and is handled with the groups that the step has
built. -/
theorem outcome_of_mem_repetitionsAt
    (stands : (scheduler.afterDirectives now).sequences[position]? = some sequence)
    {trace : RepetitionTrace} (member : trace ∈ scheduler.repetitionsAt position now) :
    trace.sequence.group = sequence.group ∧
      trace.outcome = handleRepetition (scheduler.step now).1.state.registry now sequence
        trace.iteration := by
  rw [repetitionsAt_eq stands] at member
  obtain ⟨iteration, -, rfl⟩ := List.mem_map.mp member
  exact ⟨rfl, rfl⟩

/-- A repetition of the sequence at a position looks its group up among those there are behind
the directives of its step. -/
theorem outcome_of_mem_shares
    (stands : (scheduler.afterDirectives now).sequences[position]? = some sequence)
    {later : List Time} (isTime : (now :: later)[index]? = some time)
    {own : List RepetitionTrace} {trace : RepetitionTrace}
    (isShare : (scheduler.shares position (now :: later))[index]? = some own)
    (member : trace ∈ own) :
    trace.sequence.group = sequence.group ∧
      trace.outcome =
        handleRepetition
          (scheduler.poll ((now :: later).take (index + 1))).scheduler.state.registry
          time sequence trace.iteration := by
  induction index generalizing scheduler now later sequence with
  | zero =>
    cases isTime
    cases isShare
    exact outcome_of_mem_repetitionsAt stands member
  | succ index ih =>
    cases later with
    | nil => cases isTime
    | cons next later =>
      exact ih (getElem?_afterDirectives (getElem?_step stands) next) isTime isShare

/-- A step does to a repetition that is due what becomes of it. -/
theorem becomes_handleRepetition (registry : Registry) {iteration : Nat}
    (come : sequence.slotTime iteration ≤ now) :
    sequence.Becomes registry.groups now iteration
      (handleRepetition registry now sequence iteration) := by
  rw [handleRepetition]
  by_cases late : sequence.slotTime iteration < now
  · rw [if_pos late]
    exact .missed late
  · have punctual : sequence.slotTime iteration = now :=
      UInt64.le_antisymm come (UInt64.not_lt.mp late)
    rw [if_neg late, Registry.get, Registry.find?]
    cases found : registry.groups.find? fun group => group.name = sequence.group with
    | none => exact .unknown punctual found
    | some group =>
      cases resolved : group.resolve iteration with
      | error fault => simpa [Except.bind, resolved] using .failed punctual found resolved
      | ok commands => simpa [Except.bind, resolved] using .ran punctual found resolved

/-- A repetition was run exactly if it did not miss its slot. -/
theorem isRun_outcome (trace : RepetitionTrace) : trace.outcome.isRun = !trace.isMissed := by
  rw [RepetitionTrace.isMissed]
  cases trace.outcome <;> rfl

/-- A repetition is missed exactly if its slot is before the step that handles it. -/
theorem isMissed_of_outcome {trace : RepetitionTrace} {registry : Registry}
    (handled : trace.outcome = handleRepetition registry now sequence trace.iteration) :
    trace.isMissed = decide (sequence.slotTime trace.iteration < now) := by
  rw [RepetitionTrace.isMissed, handled, handleRepetition]
  by_cases missed : sequence.slotTime trace.iteration < now
  · simp [missed]
  · simp only [missed, if_false, decide_false]
    cases (registry.get sequence.group).bind fun group => group.resolve trace.iteration <;> rfl

/-- Steps are taken at the times that they are asked for. -/
theorem times_poll (scheduler : Scheduler) (times : List Time) :
    (scheduler.poll times).steps.map (·.time) = times := by
  induction times generalizing scheduler with
  | nil => rfl
  | cons now later ih => exact congrArg (now :: ·) (ih _)

/-- Every step has its share in a sequence, which may be empty. -/
theorem length_shares (scheduler : Scheduler) (position : Nat) (times : List Time) :
    (scheduler.shares position times).length = times.length := by
  induction times generalizing scheduler with
  | nil => rfl
  | cons now later ih => exact congrArg (· + 1) (ih _)

variable {later : List Time}

/-- A share of a sequence of which nothing was behind holds the repetitions whose slot its step is
the first to reach. -/
theorem iterations_of_share
    (stands : (scheduler.afterDirectives now).sequences[position]? = some sequence)
    (fresh : sequence.completed = 0) {own : List RepetitionTrace}
    (isShare : (scheduler.shares position (now :: later))[index]? = some own) :
    own.map (·.iteration) = (List.range sequence.total).filter fun iteration =>
      (now :: later).findIdx? (sequence.slotTime iteration ≤ ·) = some index := by
  have isTurn : (sequence.turns (now :: later))[index]? = some (own.map (·.iteration)) := by
    rw [← iterations_shares stands later, List.getElem?_map, isShare]
    rfl
  rw [ScheduledSequence.getElem?_turns isTurn]
  simp [fresh]

/-- A repetition is handled in the first step that reaches its slot, and has missed it if it comes
later. -/
theorem exists_reaching_of_mem_shares
    (stands : (scheduler.afterDirectives now).sequences[position]? = some sequence)
    (fresh : sequence.completed = 0) {trace : RepetitionTrace}
    (member : trace ∈ (scheduler.shares position (now :: later)).flatten) :
    ∃ time, (now :: later).find? (sequence.slotTime trace.iteration ≤ ·) = some time ∧
      trace.isMissed = decide (sequence.slotTime trace.iteration < time) := by
  obtain ⟨own, isShare, isOwn⟩ := List.mem_flatten.mp member
  obtain ⟨index, isShare⟩ := List.mem_iff_getElem?.mp isShare
  have within : index < (now :: later).length := by
    rw [← scheduler.length_shares position]
    exact (List.getElem?_eq_some_iff.mp isShare).1
  have isTime : (now :: later)[index]? = some (now :: later)[index] :=
    List.getElem?_eq_getElem within
  have firstReaching : (now :: later).findIdx? (sequence.slotTime trace.iteration ≤ ·) =
      some index := by
    have isTurn := List.mem_map_of_mem (f := (·.iteration)) isOwn
    rw [iterations_of_share stands fresh isShare] at isTurn
    simpa using (List.mem_filter.mp isTurn).2
  refine ⟨(now :: later)[index], ?_, ?_⟩
  · rw [List.find?_eq_bind_findIdx?_getElem?, firstReaching]
    exact isTime
  · exact isMissed_of_outcome (outcome_of_mem_shares stands isTime isShare isOwn).2

/-- In its share of a step, a repetition becomes what it becomes in the first step that reaches its
slot. -/
theorem becomes_of_mem_shares
    (stands : (scheduler.afterDirectives now).sequences[position]? = some sequence)
    (fresh : sequence.completed = 0) (isTime : (now :: later)[index]? = some time)
    {own : List RepetitionTrace} {trace : RepetitionTrace}
    (isShare : (scheduler.shares position (now :: later))[index]? = some own)
    (member : trace ∈ own) :
    trace.sequence.group = sequence.group ∧
      sequence.Becomes
        (scheduler.poll ((now :: later).take (index + 1))).scheduler.state.registry.groups
        time trace.iteration trace.outcome := by
  obtain ⟨sameGroup, outcome⟩ := outcome_of_mem_shares stands isTime isShare member
  have isTurn := List.mem_map_of_mem (f := (·.iteration)) member
  rw [iterations_of_share stands fresh isShare] at isTurn
  have firstReaching : (now :: later).findIdx? (sequence.slotTime trace.iteration ≤ ·) =
      some index := of_decide_eq_true (List.mem_filter.mp isTurn).2
  have come : sequence.slotTime trace.iteration ≤ time := by
    simpa [isTime] using List.of_findIdx?_eq_some firstReaching
  exact ⟨sameGroup, outcome ▸ becomes_handleRepetition _ come⟩

/-- What a step hands over, whatever the dispatcher answers, are the calls that are due to the
outcomes of its repetitions. -/
theorem delivered_eq_flatMap_outcome {σ : Type} (dispatcher : Dispatcher σ) (client : σ)
    (step : StepTrace) :
    (dispatcher.watched.deliver (client, []) step.journal).state.2 =
      step.repetitions.flatMap fun trace => trace.outcome.calls step.time := by
  rw [calls_watched, journalCalls_step, StepTrace.calls]
  refine List.flatMap_congr fun trace _ => ?_
  rw [RepetitionTrace.commands]
  cases trace.outcome <;> rfl

/-- The faults of the repetitions that failed come last among the failures of a report. -/
theorem faults_suffix_failures (step : StepTrace) (declined : Nat) :
    step.repetitions.filterMap (fun trace => trace.outcome.fault?) <:+
      (step.report declined).failures.map (·.fault) := by
  rw [StepTrace.report, List.map_append, List.map_filterMap (l := step.repetitions)]
  refine ⟨_, congrArg (_ ++ ·) (List.filterMap_congr fun trace _ => ?_)⟩
  rw [RepetitionTrace.failure?]
  cases trace.outcome <;> rfl

/-- Handled repetitions that are told apart by their number alone. -/
theorem iterations_filter {handled : List RepetitionTrace} {iterations : List Nat}
    {reached picks : Nat → Bool} {kind : RepetitionTrace → Bool}
    (all : handled.map (·.iteration) = iterations.filter reached)
    (told : ∀ trace ∈ handled, kind trace = picks trace.iteration)
    (within : ∀ iteration, picks iteration = true → reached iteration = true) :
    (handled.filter kind).map (·.iteration) = iterations.filter picks := by
  calc (handled.filter kind).map (·.iteration)
      = (handled.filter (picks ∘ (·.iteration))).map (·.iteration) := by
        rw [List.filter_congr told]
        rfl
    _ = (iterations.filter reached).filter picks := by rw [← List.filter_map, all]
    _ = iterations.filter picks := by
        rw [List.filter_filter]
        refine List.filter_congr fun iteration _ => ?_
        cases isPicked : picks iteration with
        | false => rfl
        | true => exact within iteration isPicked

/-- The first time that reaches a slot reaches it, and so does the latest time. -/
theorem slotTime_le_of_find? {latest : Time} {iteration : Nat}
    (isLatest : ∀ time ∈ times, time ≤ latest)
    (first : times.find? (sequence.slotTime iteration ≤ ·) = some time) :
    sequence.slotTime iteration ≤ time ∧ sequence.slotTime iteration ≤ latest := by
  have due : sequence.slotTime iteration ≤ time := by simpa using List.find?_some first
  exact ⟨due, UInt64.le_trans due (isLatest time (List.mem_of_find?_eq_some first))⟩

/-- What is handled are the repetitions whose slot comes up to the latest step, in order. -/
theorem iterations_handled
    (stands : (scheduler.afterDirectives now).sequences[position]? = some sequence)
    (fresh : sequence.completed = 0) {latest : Time} (isTime : latest ∈ now :: later)
    (isLatest : ∀ time ∈ now :: later, time ≤ latest) :
    (scheduler.shares position (now :: later)).flatten.map (·.iteration) =
      (List.range sequence.total).filter (sequence.slotTime · ≤ latest) := by
  rw [List.map_flatten, iterations_shares stands later, ScheduledSequence.flatten_turns, fresh,
    Nat.sub_zero, ← List.range_eq_range',
    ScheduledSequence.range_completed_advanceAll fresh isTime isLatest]

/-- A repetition is run if the first step that reaches its slot comes at the very time of it. -/
theorem iterations_run
    (stands : (scheduler.afterDirectives now).sequences[position]? = some sequence)
    (fresh : sequence.completed = 0) (later : List Time) :
    ((scheduler.shares position (now :: later)).flatten.filter fun trace =>
        !trace.isMissed).map (·.iteration) =
      (List.range sequence.total).filter fun iteration =>
        (now :: later).find? (sequence.slotTime iteration ≤ ·) =
          some (sequence.slotTime iteration) := by
  obtain ⟨latest, isTime, isLatest⟩ := exists_latest now later
  refine iterations_filter (iterations_handled stands fresh isTime isLatest)
    (fun trace member => ?_) fun iteration picked => ?_
  · obtain ⟨time, first, isMissed⟩ := exists_reaching_of_mem_shares stands fresh member
    obtain ⟨due, -⟩ := slotTime_le_of_find? isLatest first
    rw [isMissed, first, ← decide_not, decide_eq_decide, Option.some_inj, UInt64.not_lt]
    constructor
    · intro notLater
      exact UInt64.le_antisymm notLater due
    · intro punctual
      exact UInt64.le_of_eq punctual
  · exact decide_eq_true (slotTime_le_of_find? isLatest (of_decide_eq_true picked)).2

/-- A repetition misses its step if the first one that reaches its slot comes later. -/
theorem iterations_missed
    (stands : (scheduler.afterDirectives now).sequences[position]? = some sequence)
    (fresh : sequence.completed = 0) (later : List Time) :
    ((scheduler.shares position (now :: later)).flatten.filter
        RepetitionTrace.isMissed).map (·.iteration) =
      (List.range sequence.total).filter fun iteration =>
        ((now :: later).find? (sequence.slotTime iteration ≤ ·)).any
          (sequence.slotTime iteration < ·) := by
  obtain ⟨latest, isTime, isLatest⟩ := exists_latest now later
  refine iterations_filter (iterations_handled stands fresh isTime isLatest)
    (fun trace member => ?_) fun iteration picked => ?_
  · obtain ⟨time, first, isMissed⟩ := exists_reaching_of_mem_shares stands fresh member
    rw [isMissed, first]
    rfl
  · obtain ⟨time, first, -⟩ := (Option.any_eq_true _ _).mp picked
    exact decide_eq_true (slotTime_le_of_find? isLatest first).2

end Scheduler

/-- Polled at any times from the step on in which it starts a sequence, in any order, with repeats
and gaps, a scheduler handles each repetition once at most: in the first step that comes at or
after its slot. The repetition is run if that step comes at the very time of the slot, and has
missed its step if it comes later; it is not handled if there is none. One that is run resolves its
group among those of that step: any dispatcher is handed the commands that this gives in that step,
and no others, and a fault is reported. Repetitions are handled in order, so those behind are the
first ones, as many as have their slot up to the latest step. -/
theorem repetitions_handled_once (scheduler : Scheduler) (now : Time) (later : List Time)
    {position : Nat} {sequence : ScheduledSequence}
    (new : scheduler.state.sequences.length ≤ position)
    (started : (scheduler.step now).1.state.sequences[position]? = some sequence) :
    let times := now :: later
    let run := scheduler.poll times
    let handled := (scheduler.shares position times).flatten
    let repetitions := List.range sequence.total
    (sequence.start = now ∧ 1 ≤ sequence.total ∧ (sequence.total : Int) ≤ maxCount) ∧
      run.steps.map (·.time) = times ∧
      (∀ index step, run.steps[index]? = some step →
        step.repetitions =
            (List.range run.scheduler.state.sequences.length).flatMap (fun position =>
              (scheduler.shares position times)[index]?.getD []) ∧
          ∃ own, (scheduler.shares position times)[index]? = some own ∧
            own.map (·.iteration) = repetitions.filter (fun iteration =>
              times.findIdx? (sequence.slotTime iteration ≤ ·) = some index) ∧
            ∀ trace ∈ own, trace.sequence.group = sequence.group ∧
              sequence.Becomes
                (scheduler.poll (times.take (index + 1))).scheduler.state.registry.groups
                step.time trace.iteration trace.outcome) ∧
      (∀ step ∈ run.steps,
        (∀ (σ : Type) (dispatcher : Dispatcher σ) (client : σ),
          (dispatcher.watched.deliver (client, []) step.journal).state.2 =
            step.repetitions.flatMap (fun trace => trace.outcome.calls step.time)) ∧
          ∀ declined, step.repetitions.filterMap (fun trace => trace.outcome.fault?) <:+
            (step.report declined).failures.map (·.fault)) ∧
      (handled.filter fun trace => trace.outcome.isRun).map (·.iteration) =
        repetitions.filter (fun iteration =>
          times.find? (sequence.slotTime iteration ≤ ·) = some (sequence.slotTime iteration)) ∧
      (handled.filter fun trace => !trace.outcome.isRun).map (·.iteration) =
        repetitions.filter (fun iteration =>
          (times.find? (sequence.slotTime iteration ≤ ·)).any (sequence.slotTime iteration < ·)) ∧
      ∃ latest ∈ times, (∀ time ∈ times, time ≤ latest) ∧
        let count := (repetitions.filter (sequence.slotTime · ≤ latest)).length
        handled.map (·.iteration) = List.range count ∧
          ∃ final, run.scheduler.state.sequences[position]? = some final ∧
            final = { sequence with completed := count } ∧
            final.state = if count = sequence.total then .done else .running count := by
  intro times run handled repetitions
  obtain ⟨fresh, stands, start, unhandled, inRange, rfl⟩ :=
    Scheduler.started_of_getElem?_step new started
  obtain ⟨latest, isTime, isLatest⟩ := exists_latest now later
  have all : handled.map (·.iteration) = repetitions.filter (fresh.slotTime · ≤ latest) :=
    Scheduler.iterations_handled stands unhandled isTime isLatest
  have behind : List.range (fresh.advanceAll times).completed =
      repetitions.filter (fresh.slotTime · ≤ latest) :=
    ScheduledSequence.range_completed_advanceAll unhandled isTime isLatest
  have count : (repetitions.filter (fresh.slotTime · ≤ latest)).length =
      (fresh.advanceAll times).completed := by
    rw [← behind, List.length_range]
  have ran := Scheduler.iterations_run stands unhandled later
  have missed := Scheduler.iterations_missed stands unhandled later
  refine ⟨⟨start, inRange.total_pos, inRange.total_le⟩, scheduler.times_poll times,
    fun index step isStep => ?_,
    fun step _ => ⟨fun _ dispatcher client =>
      Scheduler.delivered_eq_flatMap_outcome dispatcher client step,
      Scheduler.faults_suffix_failures step⟩,
    ?_, ?_, latest, isTime, isLatest, ?_⟩
  · have isStepTime : times[index]? = some step.time := by
      rw [← scheduler.times_poll times, List.getElem?_map, isStep]
      rfl
    have within : index < (scheduler.shares position times).length := by
      rw [Scheduler.length_shares]
      exact (List.getElem?_eq_some_iff.mp isStepTime).1
    have isShare := List.getElem?_eq_getElem within
    refine ⟨scheduler.repetitions_poll_eq_flatMap isStep (Nat.le_refl _), _, isShare,
      Scheduler.iterations_of_share stands unhandled isShare, fun trace member => ?_⟩
    obtain ⟨sameGroup, becomes⟩ :=
      Scheduler.becomes_of_mem_shares stands unhandled isStepTime isShare member
    exact ⟨sameGroup, becomes.advanceTo now⟩
  · simp only [Scheduler.isRun_outcome]
    exact ran
  · simp only [Scheduler.isRun_outcome, Bool.not_not]
    exact missed
  · refine ⟨count ▸ all.trans behind.symm, fresh.advanceAll times,
      Scheduler.getElem?_poll (Scheduler.getElem?_step stands) later, ?_, ?_⟩
    · exact (fresh.advanceAll_eq times).trans
        (congrArg (fun completed => { fresh with completed }) count.symm)
    · have state := ScheduledSequence.state_advanceAll unhandled inRange.total_pos
        (start ▸ List.mem_cons_self : fresh.start ∈ times)
      exact count ▸ state

/-- A scheduler that repeats a group four times, every three units of time from 5 on. -/
def fourfold : Scheduler :=
  ⟨fun _ => none, [⟨5, "G", .createGroup⟩, ⟨5, "G", .executeSequence 4 3⟩], .empty⟩

/-- Polled at 5, 11, 7 and 11, it runs the repetitions of 5 and 11, has missed that of 8, and has
not come to that of 14. -/
theorem repetitions_of_fourfold :
    fourfold.state.sequences.length ≤ 0 ∧
      (fourfold.step 5).1.state.sequences[0]? = some ⟨"G", 4, 3, 5, 1⟩ ∧
      let handled := (fourfold.shares 0 [5, 11, 7, 11]).flatten
      (handled.filter fun trace => trace.outcome.isRun).map (·.iteration) = [0, 2] ∧
      (handled.filter fun trace => !trace.outcome.isRun).map (·.iteration) = [1] ∧
      ∃ final, (fourfold.poll [5, 11, 7, 11]).scheduler.state.sequences[0]? = some final ∧
        final.state = .running 3 := by
  have new : fourfold.state.sequences.length ≤ 0 := by decide
  have started : (fourfold.step 5).1.state.sequences[0]? = some ⟨"G", 4, 3, 5, 1⟩ := by
    decide +kernel
  obtain ⟨-, -, -, -, ran, missed, latest, isTime, isLatest, -, final, found, -, state⟩ :=
    repetitions_handled_once fourfold 5 [11, 7, 11] new started
  have isEleven : latest = 11 := by
    have among : latest = 5 ∨ latest = 11 ∨ latest = 7 ∨ latest = 11 := by simpa using isTime
    have atLeast : 11 ≤ latest := isLatest 11 (by decide)
    rcases among with rfl | rfl | rfl | rfl
    · exact absurd atLeast (by decide)
    · rfl
    · exact absurd atLeast (by decide)
    · rfl
  subst isEleven
  exact ⟨new, started, ran.trans (by decide +kernel), missed.trans (by decide +kernel), final,
    found, state.trans (by decide +kernel)⟩

end TimedCommands
