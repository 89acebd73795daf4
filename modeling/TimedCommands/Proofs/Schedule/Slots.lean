import Mathlib.Data.List.Sort
import TimedCommands.Schedule.Sequence

/-!
# Slots of a sequence

Slots never come earlier as repetitions go on. How far a sequence has come at a time is
therefore told by membership alone: a repetition is behind if it was behind before or if
its slot has come (`lt_completedAt_iff`), and the repetitions that are due are found by
looking at every repetition on its own (`dueIterations_eq_filter`).
-/

namespace TimedCommands.ScheduledSequence

variable {sequence : ScheduledSequence} {now : Time} {iteration : Nat}

/-- A slot is at its start and so many periods, or at the last time if that is beyond it. -/
theorem toNat_slotTime (sequence : ScheduledSequence) (iteration : Nat) :
    (sequence.slotTime iteration).toNat =
      min (sequence.start.toNat + sequence.period * iteration) lastTime := by
  have small : min (sequence.start.toNat + sequence.period * iteration) lastTime < UInt64.size := by
    simp only [lastTime, UInt64.size]
    omega
  exact UInt64.toNat_ofNat_of_lt' small

/-- Slots never go back. -/
theorem slotTime_mono (sequence : ScheduledSequence) {earlier later : Nat}
    (before : earlier ≤ later) : sequence.slotTime earlier ≤ sequence.slotTime later := by
  have further := Nat.mul_le_mul_left sequence.period before
  rw [UInt64.le_iff_toNat_le, toNat_slotTime, toNat_slotTime]
  omega

/-- No slot is before the start. -/
theorem start_le_slotTime (sequence : ScheduledSequence) (iteration : Nat) :
    sequence.start ≤ sequence.slotTime iteration := by
  have bounded := sequence.start.toNat_lt_size
  rw [UInt64.le_iff_toNat_le, toNat_slotTime]
  simp only [lastTime]
  omega

/-- An iteration is before the first that is not due if it is done, or left and due. -/
theorem lt_firstNotDue_iff (sequence : ScheduledSequence) (now : Time)
    (remaining first iteration : Nat) :
    iteration < sequence.firstNotDue now remaining first ↔
      iteration < first ∨ (iteration < first + remaining ∧ sequence.slotTime iteration ≤ now) := by
  induction remaining generalizing first with
  | zero =>
    simp only [firstNotDue]
    omega
  | succ remaining ih =>
    rw [firstNotDue]
    by_cases due : sequence.slotTime first ≤ now
    · rw [if_pos due, ih]
      constructor
      · rintro (behind | ⟨within, come⟩)
        · rcases Nat.lt_succ_iff_lt_or_eq.mp behind with before | rfl
          · exact .inl before
          · exact .inr ⟨by omega, due⟩
        · exact .inr ⟨by omega, come⟩
      · rintro (behind | ⟨within, come⟩)
        · exact .inl (by omega)
        · exact .inr ⟨by omega, come⟩
    · rw [if_neg due]
      refine ⟨.inl, fun come => ?_⟩
      by_contra ahead
      obtain ⟨-, come⟩ := come.resolve_left ahead
      exact due (UInt64.le_trans (slotTime_mono sequence (Nat.le_of_not_lt ahead)) come)

/-- A repetition is behind once its slot has come, and stays behind. -/
theorem lt_completedAt_iff :
    iteration < sequence.completedAt now ↔
      iteration < sequence.completed ∨
        (iteration < sequence.total ∧ sequence.slotTime iteration ≤ now) := by
  rw [completedAt, lt_firstNotDue_iff]
  constructor
  · rintro (behind | ⟨within, come⟩)
    · exact .inl behind
    · rcases Nat.lt_or_ge iteration sequence.completed with behind | ahead
      · exact .inl behind
      · exact .inr ⟨by omega, come⟩
  · rintro (behind | ⟨within, come⟩)
    · exact .inl behind
    · exact .inr ⟨by omega, come⟩

/-- A sequence never goes back. -/
theorem completed_le_completedAt (sequence : ScheduledSequence) (now : Time) :
    sequence.completed ≤ sequence.completedAt now := by
  by_contra fewer
  have behind : sequence.completedAt now < sequence.completedAt now :=
    lt_completedAt_iff.mpr (.inl (Nat.lt_of_not_le fewer))
  exact Nat.lt_irrefl _ behind

/-- Due are the iterations that are left and whose slot has come. -/
theorem mem_dueIterations :
    iteration ∈ sequence.dueIterations now ↔
      sequence.completed ≤ iteration ∧ iteration < sequence.total ∧
        sequence.slotTime iteration ≤ now := by
  have grown := completed_le_completedAt sequence now
  rw [dueIterations, List.mem_range'_1, Nat.add_sub_cancel' grown, lt_completedAt_iff]
  refine and_congr_right fun ahead => ?_
  simp [Nat.not_lt.mpr ahead]

/-- The repetitions that are due are those ahead whose slot has come. -/
theorem dueIterations_eq_filter (sequence : ScheduledSequence) (now : Time) :
    sequence.dueIterations now = (List.range sequence.total).filter fun iteration =>
      sequence.completed ≤ iteration ∧ sequence.slotTime iteration ≤ now := by
  have ascending : (sequence.dueIterations now).Pairwise (· < ·) := List.pairwise_lt_range'
  have ascendingFilter : ((List.range sequence.total).filter fun iteration =>
      sequence.completed ≤ iteration ∧ sequence.slotTime iteration ≤ now).Pairwise (· < ·) :=
    List.pairwise_lt_range.filter _
  refine ascending.eq_of_mem_iff ascendingFilter fun iteration => ?_
  rw [mem_dueIterations, List.mem_filter, List.mem_range, decide_eq_true_eq, and_left_comm]

end TimedCommands.ScheduledSequence
