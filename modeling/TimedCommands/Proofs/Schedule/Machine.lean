import TimedCommands.Proofs.Schedule.Events

/-!
# One repetition after the other

`ScheduledSequence.advanceTo` puts everything that is due behind at once. An engine that handles
one repetition after the other keeps a state and a counter of 32 bits, looks at the next repetition
each time and stops at the first that is not due. `SequenceMachine` is that engine, and
`CatchesUp` its loop, in which a counter that overflows has no successor.

For a sequence whose numbers fit (`ScheduledSequence.InRange`) the loop comes to its end, handles
the repetitions that are due and arrives where `advanceTo` does (`catchesUp_advanceTo`). So no
counter overflows on the way.
-/

namespace TimedCommands

/-- How far a machine has come, counted in 32 bits. -/
inductive Progress where
  | pending
  | running (completed : UInt32)
  | done
  deriving Repr, DecidableEq

/-- A sequence that moves on by one repetition at a time. -/
structure SequenceMachine where
  total : UInt32
  period : UInt64
  start : Time
  progress : Progress
  deriving Repr, DecidableEq

/-- A number, held at the last time there is. -/
def saturate (number : Nat) : UInt64 := UInt64.ofNat (min number lastTime)

/-- A number that does not fit is replaced by the last time. -/
theorem toNat_saturate (number : Nat) : (saturate number).toNat = min number lastTime := by
  apply UInt64.toNat_ofNat_of_lt'
  simp only [lastTime, UInt64.size]
  omega

namespace SequenceMachine

/-- The time of a repetition. The product and the sum are held one after the other. -/
def slotTime (machine : SequenceMachine) (iteration : UInt32) : Time :=
  saturate (machine.start.toNat + (saturate (machine.period.toNat * iteration.toNat)).toNat)

/-- The next repetition, if one is left. -/
def next? (machine : SequenceMachine) : Option UInt32 :=
  match machine.progress with
  | .pending => some 0
  | .running completed => some completed
  | .done => none

/-- The machine once its next repetition is behind. There is none if the counter overflows. -/
def advance? (machine : SequenceMachine) : Option SequenceMachine := do
  let completed ← match machine.next? with
    | none => some machine.total
    | some iteration =>
      if iteration.toNat + 1 < UInt32.size then some (iteration + 1) else none
  return { machine with
    progress := if machine.total ≤ completed then .done else .running completed }

end SequenceMachine

/-- The loop of a machine at a time: the repetitions that it handles, in order, and where it
stands afterwards. -/
inductive CatchesUp (now : Time) :
    SequenceMachine → List UInt32 → SequenceMachine → Prop where
  | rest {machine : SequenceMachine}
      (ahead : ∀ iteration ∈ machine.next?, now < machine.slotTime iteration) :
      CatchesUp now machine [] machine
  | handle {machine next last : SequenceMachine} {iteration : UInt32} {later : List UInt32}
      (isNext : machine.next? = some iteration) (come : machine.slotTime iteration ≤ now)
      (advances : machine.advance? = some next) (loop : CatchesUp now next later last) :
      CatchesUp now machine (iteration :: later) last

/-- The loop has one outcome at most. -/
theorem CatchesUp.unique {now : Time} {machine last other : SequenceMachine}
    {handled others : List UInt32} (here : CatchesUp now machine handled last)
    (there : CatchesUp now machine others other) : handled = others ∧ last = other := by
  induction here generalizing others other with
  | rest ahead =>
    cases there with
    | rest => exact ⟨rfl, rfl⟩
    | handle isNext come => exact absurd come (UInt64.not_le.mpr (ahead _ isNext))
  | handle isNext come advances _ ih =>
    cases there with
    | rest ahead => exact absurd come (UInt64.not_le.mpr (ahead _ isNext))
    | handle isNextThere _ advancesThere loop =>
      obtain rfl := Option.some.inj (isNext.symm.trans isNextThere)
      obtain rfl := Option.some.inj (advances.symm.trans advancesThere)
      obtain ⟨rfl, rfl⟩ := ih loop
      exact ⟨rfl, rfl⟩

namespace ScheduledSequence

/-- The numbers of a sequence fit: it repeats at least once, and counts in 32 bits. -/
structure InRange (sequence : ScheduledSequence) : Prop where
  total_pos : 1 ≤ sequence.total
  total_le : (sequence.total : Int) ≤ maxCount
  period_le : (sequence.period : Int) ≤ Int64.maxValue.toInt
  completed_le : sequence.completed ≤ sequence.total

/-- The machine of a sequence. -/
def machine (sequence : ScheduledSequence) : SequenceMachine where
  total := UInt32.ofNat sequence.total
  period := UInt64.ofNat sequence.period
  start := sequence.start
  progress := match sequence.state with
    | .pending => .pending
    | .running completed => .running (UInt32.ofNat completed)
    | .done => .done

variable {sequence : ScheduledSequence} {now : Time} {iteration : Nat}

/-- The number of repetitions of a sequence in range fits 32 bits. -/
theorem InRange.total_lt (inRange : sequence.InRange) : sequence.total < UInt32.size := by
  have fits := inRange.total_le
  simp only [maxCount] at fits
  simp only [UInt32.size]
  omega

/-- The period of a sequence in range fits 64 bits. -/
theorem InRange.period_lt (inRange : sequence.InRange) : sequence.period < UInt64.size := by
  have fits := inRange.period_le
  have bound : Int64.maxValue.toInt = 9223372036854775807 := rfl
  rw [bound] at fits
  simp only [UInt64.size]
  omega

/-- A machine computes the slot of a repetition, where it saturates too. -/
theorem slotTime_machine (inRange : sequence.InRange) (within : iteration < sequence.total) :
    sequence.machine.slotTime (UInt32.ofNat iteration) = sequence.slotTime iteration := by
  have sameIteration : (UInt32.ofNat iteration).toNat = iteration :=
    UInt32.toNat_ofNat_of_lt' (Nat.lt_trans within inRange.total_lt)
  have samePeriod : (UInt64.ofNat sequence.period).toNat = sequence.period :=
    UInt64.toNat_ofNat_of_lt' inRange.period_lt
  rw [← UInt64.toNat_inj, SequenceMachine.slotTime, toNat_saturate, toNat_saturate, toNat_slotTime]
  simp only [machine, sameIteration, samePeriod]
  omega

/-- The next repetition of a machine is that of its sequence, if any is left. -/
theorem next?_machine_of_left (left : sequence.completed < sequence.total) :
    sequence.machine.next? = some (UInt32.ofNat sequence.completed) := by
  have notDone : sequence.isDone = false := by simpa [isDone] using left
  by_cases first : sequence.completed = 0
  · simp [machine, SequenceMachine.next?, state, notDone, first]
  · simp [machine, SequenceMachine.next?, state, notDone, first]

/-- A machine that is done has no next repetition. -/
theorem next?_machine_of_done (done : sequence.total ≤ sequence.completed) :
    sequence.machine.next? = none := by
  have isDone : sequence.isDone = true := by simpa [isDone] using done
  simp [machine, SequenceMachine.next?, state, isDone]

/-- The counter of a machine that is not done has room for one more. -/
theorem advance?_machine (inRange : sequence.InRange)
    (left : sequence.completed < sequence.total) :
    sequence.machine.advance? =
      some { sequence with completed := sequence.completed + 1 }.machine := by
  have fits := inRange.total_lt
  have sameTotal : (UInt32.ofNat sequence.total).toNat = sequence.total :=
    UInt32.toNat_ofNat_of_lt' fits
  have sameCompleted : (UInt32.ofNat sequence.completed).toNat = sequence.completed :=
    UInt32.toNat_ofNat_of_lt' (Nat.lt_trans left fits)
  have room : (UInt32.ofNat sequence.completed).toNat + 1 < UInt32.size := by
    rw [sameCompleted]
    omega
  have successor : (UInt32.ofNat sequence.completed + 1).toNat = sequence.completed + 1 := by
    rw [← UInt32.ofNat_one, ← UInt32.ofNat_add]
    exact UInt32.toNat_ofNat_of_lt' (by omega)
  have last : UInt32.ofNat sequence.total ≤ UInt32.ofNat sequence.completed + 1 ↔
      sequence.total ≤ sequence.completed + 1 := by
    rw [UInt32.le_iff_toNat_le, sameTotal, successor]
  simp only [SequenceMachine.advance?, next?_machine_of_left left, if_pos room,
    Option.bind_eq_bind, Option.bind_some, Option.pure_def]
  by_cases ends : sequence.total ≤ sequence.completed + 1
  · simp [machine, state, isDone, last.mpr ends, ends]
  · simp [machine, state, isDone, last, ends]

/-- How far a sequence gets does not depend on whether the repetition that is due is counted yet. -/
theorem completedAt_of_due (left : sequence.completed < sequence.total)
    (come : sequence.slotTime sequence.completed ≤ now) :
    { sequence with completed := sequence.completed + 1 }.completedAt now =
      sequence.completedAt now := by
  obtain ⟨remaining, count⟩ := Nat.exists_eq_add_of_lt left
  have here : sequence.total - sequence.completed = remaining + 1 := by omega
  have behind : sequence.total - (sequence.completed + 1) = remaining := by omega
  have sameSlots (remaining iteration : Nat) :
      { sequence with completed := sequence.completed + 1 }.firstNotDue now remaining iteration =
        sequence.firstNotDue now remaining iteration := by
    induction remaining generalizing iteration with
    | zero => rfl
    | succ remaining ih =>
      rw [firstNotDue, firstNotDue, ih]
      rfl
  rw [completedAt, completedAt, here, firstNotDue, if_pos come, sameSlots]
  simp only [behind]

/-- A repetition that is due is the first of those that are. -/
theorem dueIterations_of_due (left : sequence.completed < sequence.total)
    (come : sequence.slotTime sequence.completed ≤ now) :
    sequence.dueIterations now = sequence.completed ::
      { sequence with completed := sequence.completed + 1 }.dueIterations now := by
  have further : sequence.completed < sequence.completedAt now :=
    lt_completedAt_iff.mpr (.inr ⟨left, come⟩)
  obtain ⟨later, count⟩ := Nat.exists_eq_add_of_lt further
  have here : sequence.completedAt now - sequence.completed = later + 1 := by omega
  have behind : sequence.completedAt now - (sequence.completed + 1) = later := by omega
  rw [dueIterations, dueIterations, completedAt_of_due left come, here, behind, List.range'_succ]

/-- A sequence advances over the repetition that is due and goes on from there. -/
theorem advanceTo_of_due (left : sequence.completed < sequence.total)
    (come : sequence.slotTime sequence.completed ≤ now) :
    sequence.advanceTo now =
      { sequence with completed := sequence.completed + 1 }.advanceTo now := by
  rw [advanceTo, advanceTo, completedAt_of_due left come]

/-- A sequence in range stays in range when it advances. -/
theorem InRange.advanceTo (inRange : sequence.InRange) (now : Time) :
    (sequence.advanceTo now).InRange := by
  refine ⟨inRange.total_pos, inRange.total_le, inRange.period_le, ?_⟩
  change sequence.completedAt now ≤ sequence.total
  by_contra beyond
  rcases lt_completedAt_iff.mp (Nat.lt_of_not_le beyond) with behind | ⟨within, -⟩
  · exact Nat.not_lt.mpr inRange.completed_le behind
  · exact Nat.lt_irrefl _ within

/-- One repetition after the other, a machine handles what is due and gets as far as its
sequence, without an overflow of its counter. -/
theorem catchesUp_advanceTo (inRange : sequence.InRange) (now : Time) :
    CatchesUp now sequence.machine ((sequence.dueIterations now).map UInt32.ofNat)
      (sequence.advanceTo now).machine := by
  -- By induction on the number of repetitions that are due.
  induction due : sequence.completedAt now - sequence.completed generalizing sequence with
  | zero =>
    have grown := completed_le_completedAt sequence now
    have same : sequence.completedAt now = sequence.completed := by omega
    have ahead := completedAt_eq_iff.mp same
    rw [advanceTo_of_ahead ahead, dueIterations_of_ahead ahead]
    apply CatchesUp.rest
    intro iteration isNext
    rcases Nat.lt_or_ge sequence.completed sequence.total with left | done
    · obtain rfl : UInt32.ofNat sequence.completed = iteration := by
        simpa [next?_machine_of_left left] using isNext
      rw [slotTime_machine inRange left]
      exact ahead _ (nextDue?_eq_some_iff.mpr ⟨left, rfl⟩)
    · simp [next?_machine_of_done done] at isNext
  | succ count ih =>
    obtain ⟨left, come⟩ : sequence.completed < sequence.total ∧
        sequence.slotTime sequence.completed ≤ now := by
      have further : sequence.completed < sequence.completedAt now := by omega
      simpa using lt_completedAt_iff.mp further
    let next := { sequence with completed := sequence.completed + 1 }
    have nextInRange : next.InRange :=
      ⟨inRange.total_pos, inRange.total_le, inRange.period_le, left⟩
    have nextDue : next.completedAt now - next.completed = count := by
      rw [completedAt_of_due left come]
      change sequence.completedAt now - (sequence.completed + 1) = count
      omega
    rw [dueIterations_of_due left come, advanceTo_of_due left come, List.map_cons]
    refine CatchesUp.handle (next?_machine_of_left left) ?_ (advance?_machine inRange left)
      (ih nextInRange nextDue)
    rwa [slotTime_machine inRange left]

end ScheduledSequence

end TimedCommands
