import TimedCommands.Directive.Basic

/-!
# The firing order

Bringing directives into firing order sorts them by time and leaves the directives of one
time as they were (`filter_time_firingOrder`). On a list in firing order a step takes its
due directives from the front, which is the same as picking them out by their times.
-/

namespace TimedCommands

variable {directives : List Directive}

/-- Directives stand in the order of their times. -/
def InFiringOrder (directives : List Directive) : Prop :=
  directives.Pairwise fun left right => left.time ≤ right.time

/-- What fires before something that fires before something else fires before that as well. -/
private theorem firesBefore_trans (first middle last : Directive)
    (before : decide (first.time ≤ middle.time) = true)
    (after : decide (middle.time ≤ last.time) = true) : decide (first.time ≤ last.time) = true :=
  decide_eq_true (UInt64.le_trans (of_decide_eq_true before) (of_decide_eq_true after))

/-- Of two directives, one fires no later than the other. -/
private theorem firesBefore_total (left right : Directive) :
    (decide (left.time ≤ right.time) || decide (right.time ≤ left.time)) = true := by
  simpa using UInt64.le_total left.time right.time

/-- Directives that were brought into firing order are in firing order. -/
theorem inFiringOrder_firingOrder (directives : List Directive) :
    InFiringOrder (firingOrder directives) :=
  (List.pairwise_mergeSort firesBefore_trans firesBefore_total directives).imp of_decide_eq_true

/-- Bringing directives into firing order neither adds nor drops any. -/
theorem firingOrder_perm (directives : List Directive) :
    (firingOrder directives).Perm directives :=
  List.mergeSort_perm directives _

/-- Some of the directives in firing order are in firing order. -/
theorem InFiringOrder.filter (ordered : InFiringOrder directives) (keeps : Directive → Bool) :
    InFiringOrder (directives.filter keeps) :=
  List.Pairwise.filter keeps ordered

/-- Directives in firing order stay as they are. -/
theorem InFiringOrder.firingOrder_eq (ordered : InFiringOrder directives) :
    firingOrder directives = directives :=
  List.mergeSort_of_pairwise (ordered.imp decide_eq_true)

/-- Sorting is stable: within one time the directives keep their input order. -/
theorem filter_time_firingOrder (directives : List Directive) (time : Time) :
    (firingOrder directives).filter (·.time = time) = directives.filter (·.time = time) := by
  have level : (directives.filter (·.time = time)).Pairwise fun left right =>
      decide (left.time ≤ right.time) = true := by
    refine List.pairwise_of_forall_mem_list fun left leftHere right rightHere => ?_
    simp only [List.mem_filter, decide_eq_true_eq] at leftHere rightHere
    exact decide_eq_true (UInt64.le_of_eq (leftHere.2.trans rightHere.2.symm))
  have kept := (List.sublist_mergeSort firesBefore_trans firesBefore_total level
    List.filter_sublist).filter fun directive : Directive => directive.time = time
  rw [List.filter_filter] at kept
  simp only [Bool.and_self] at kept
  exact (kept.eq_of_length ((firingOrder_perm directives).filter _).length_eq.symm).symm

/-- Lists with the same directives at every time have the same directives. -/
theorem mem_iff_of_filter_time {left right : List Directive}
    (same : ∀ time : Time, left.filter (·.time = time) = right.filter (·.time = time))
    (directive : Directive) : directive ∈ left ↔ directive ∈ right := by
  have level := congrArg (directive ∈ ·) (same directive.time)
  simpa using level

/-- A list in firing order is told by the directives of each time. -/
theorem InFiringOrder.eq_of_filter_time {left right : List Directive}
    (leftOrdered : InFiringOrder left) (rightOrdered : InFiringOrder right)
    (same : ∀ time : Time, left.filter (·.time = time) = right.filter (·.time = time)) :
    left = right := by
  induction left generalizing right with
  | nil =>
    cases right with
    | nil => rfl
    | cons first rest =>
      exact absurd ((mem_iff_of_filter_time same first).mpr List.mem_cons_self) (by simp)
  | cons first rest ih =>
    cases right with
    | nil => exact absurd ((mem_iff_of_filter_time same first).mp List.mem_cons_self) (by simp)
    | cons other others =>
      -- Each head stands in the other list as well, so neither is the later one.
      have notLater : first.time ≤ other.time := by
        have member := (mem_iff_of_filter_time same other).mpr List.mem_cons_self
        rcases List.mem_cons.mp member with rfl | member
        · exact UInt64.le_refl _
        · exact List.rel_of_pairwise_cons leftOrdered member
      have notEarlier : other.time ≤ first.time := by
        have member := (mem_iff_of_filter_time same first).mp List.mem_cons_self
        rcases List.mem_cons.mp member with rfl | member
        · exact UInt64.le_refl _
        · exact List.rel_of_pairwise_cons rightOrdered member
      have sameTime : first.time = other.time := UInt64.le_antisymm notLater notEarlier
      have heads := same other.time
      simp only [List.filter_cons, sameTime, decide_true, ↓reduceIte, List.cons.injEq] at heads
      obtain ⟨rfl, -⟩ := heads
      have sameRest : ∀ time : Time,
          rest.filter (·.time = time) = others.filter (·.time = time) := fun time => by
        have level := same time
        by_cases punctual : first.time = time <;> simpa [punctual] using level
      rw [ih leftOrdered.of_cons rightOrdered.of_cons sameRest]

/-- Leaving directives out does not change the order of the others. -/
theorem firingOrder_filter (keeps : Directive → Bool) (directives : List Directive) :
    firingOrder (directives.filter keeps) = (firingOrder directives).filter keeps := by
  refine (inFiringOrder_firingOrder _).eq_of_filter_time
    ((inFiringOrder_firingOrder directives).filter keeps) fun time => ?_
  rw [filter_time_firingOrder, List.filter_filter, List.filter_filter]
  have level := congrArg (List.filter keeps) (filter_time_firingOrder directives time)
  rw [List.filter_filter, List.filter_filter] at level
  simpa only [Bool.and_comm] using level.symm

/-- Nothing behind a directive that is not due is due. -/
theorem InFiringOrder.not_due {first : Directive} {rest : List Directive} {now : Time}
    (ordered : InFiringOrder (first :: rest)) (notDue : ¬ first.time ≤ now) :
    ∀ directive ∈ first :: rest, ¬ directive.time ≤ now := by
  intro directive member due
  rcases List.mem_cons.mp member with rfl | later
  · exact notDue due
  · exact notDue (UInt64.le_trans (List.rel_of_pairwise_cons ordered later) due)

/-- In firing order, the directives that are due stand in front. -/
theorem InFiringOrder.takeWhile_due (ordered : InFiringOrder directives) (now : Time) :
    directives.takeWhile (·.time ≤ now) = directives.filter (·.time ≤ now) := by
  induction directives with
  | nil => rfl
  | cons first rest ih =>
    by_cases due : first.time ≤ now
    · simp [due, ih ordered.of_cons]
    · rw [List.takeWhile_cons_of_neg (by simpa using due), eq_comm, List.filter_eq_nil_iff]
      simpa using ordered.not_due due

/-- In firing order, the directives that are not due stand at the end. -/
theorem InFiringOrder.dropWhile_due (ordered : InFiringOrder directives) (now : Time) :
    directives.dropWhile (·.time ≤ now) = directives.filter (now < ·.time) := by
  induction directives with
  | nil => rfl
  | cons first rest ih =>
    by_cases due : first.time ≤ now
    · have handled : ¬ now < first.time := UInt64.not_lt.mpr due
      simp [due, handled, ih ordered.of_cons]
    · rw [List.dropWhile_cons_of_neg (by simpa using due), eq_comm, List.filter_eq_self]
      intro directive member
      exact decide_eq_true (UInt64.not_le.mp (ordered.not_due due directive member))

end TimedCommands
