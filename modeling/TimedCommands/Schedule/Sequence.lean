import TimedCommands.Identifier
import TimedCommands.Value

/-!
# Scheduled sequences

A sequence repeats a group a number of times at a fixed period. Repetition `i` belongs
to the slot at `start + i * period`, held at the last time there is if that lies
beyond it. Slots never come earlier as repetitions go on, so those that are due at a
time are always the next ones, and one number says how far a sequence has come.
-/

namespace TimedCommands

/-- The last time there is. -/
def lastTime : Nat := UInt64.size - 1

/-- The repetitions of a group, and how many of them are behind. -/
structure ScheduledSequence where
  group : GroupName
  total : Nat
  period : Nat
  start : Time
  completed : Nat
  deriving Repr, DecidableEq

/-- How far a sequence has come. One without repetitions is done from the start. -/
inductive SequenceState where
  | pending
  | running (completed : Nat)
  | done
  deriving Repr, DecidableEq

namespace ScheduledSequence

/-- A sequence of which nothing is behind. -/
def begin (group : GroupName) (total period : Nat) (start : Time) : ScheduledSequence :=
  ⟨group, total, period, start, 0⟩

/-- Whether all repetitions are behind. -/
def isDone (sequence : ScheduledSequence) : Bool := sequence.total ≤ sequence.completed

/-- How far the sequence has come. -/
def state (sequence : ScheduledSequence) : SequenceState :=
  if sequence.isDone then .done
  else if sequence.completed = 0 then .pending
  else .running sequence.completed

/-- The time of a repetition. -/
def slotTime (sequence : ScheduledSequence) (iteration : Nat) : Time :=
  UInt64.ofNat (min (sequence.start.toNat + sequence.period * iteration) lastTime)

/-- The next repetition, if one is left. -/
def nextIteration? (sequence : ScheduledSequence) : Option Nat :=
  if sequence.isDone then none else some sequence.completed

/-- The time of the next repetition. -/
def nextDue? (sequence : ScheduledSequence) : Option Time :=
  sequence.nextIteration?.map sequence.slotTime

/-- The first repetition that is not due at `now`, looking at `remaining` repetitions from
`iteration` on. -/
def firstNotDue (sequence : ScheduledSequence) (now : Time) : (remaining iteration : Nat) → Nat
  | 0, iteration => iteration
  | remaining + 1, iteration =>
    if sequence.slotTime iteration ≤ now then sequence.firstNotDue now remaining (iteration + 1)
    else iteration

/-- How many repetitions are behind once all that are due at `now` are. -/
def completedAt (sequence : ScheduledSequence) (now : Time) : Nat :=
  sequence.firstNotDue now (sequence.total - sequence.completed) sequence.completed

/-- The repetitions that are due at `now` and not behind, in order. -/
def dueIterations (sequence : ScheduledSequence) (now : Time) : List Nat :=
  List.range' sequence.completed (sequence.completedAt now - sequence.completed)

/-- The sequence once all repetitions that are due at `now` are behind. -/
def advanceTo (sequence : ScheduledSequence) (now : Time) : ScheduledSequence :=
  { sequence with completed := sequence.completedAt now }

end ScheduledSequence

end TimedCommands
