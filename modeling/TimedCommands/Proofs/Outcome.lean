/-!
# Sequenced outcomes

Firing, checking and resolving are sequences of operations that may fail. These lemmas
take such a sequence apart: it succeeds if every operation does, and otherwise fails as
the first one that fails.
-/

namespace TimedCommands

variable {ε α β γ : Type} {first : Except ε α} {next : α → Except ε β}

/-- What follows a success is done with its value. -/
@[simp] theorem ok_bind (value : α) (next : α → Except ε β) :
    (Except.ok value >>= next) = next value := rfl

/-- Nothing follows a failure. -/
@[simp] theorem error_bind (fault : ε) (next : α → Except ε β) :
    (Except.error fault >>= next) = .error fault := rfl

/-- An answer is a success. -/
@[simp] theorem pure_eq_ok (value : α) : (pure value : Except ε α) = .ok value := rfl

/-- The value of a success is changed. -/
@[simp] theorem ok_map (change : α → β) (value : α) :
    (Except.ok value : Except ε α).map change = .ok (change value) := rfl

/-- A failure has no value to change. -/
@[simp] theorem error_map (change : α → β) (fault : ε) :
    (Except.error fault : Except ε α).map change = .error fault := rfl

/-- A change of the answer is one of what is answered last. -/
theorem map_bind (first : Except ε α) (next : α → Except ε β) (change : β → γ) :
    (first >>= next).map change = first >>= fun value => (next value).map change := by
  cases first <;> rfl

/-- A change in between is one of what is handed on. -/
theorem bind_map (first : Except ε α) (change : α → β) (next : β → Except ε γ) :
    first.map change >>= next = first >>= fun value => next (change value) := by
  cases first <;> rfl

/-- Two operations succeed if the first does, and the second with its value. -/
theorem bind_eq_ok_iff {result : β} :
    (first >>= next) = .ok result ↔ ∃ middle, first = .ok middle ∧ next middle = .ok result := by
  cases first <;> simp

/-- Two operations fail if the first does, or the second with its value. -/
theorem bind_eq_error_iff {fault : ε} :
    (first >>= next) = .error fault ↔
      first = .error fault ∨ ∃ middle, first = .ok middle ∧ next middle = .error fault := by
  cases first <;> simp

/-- Behind a check, an operation succeeds if the check does. -/
theorem check_bind_eq_ok_iff {check : Except ε Unit} {next : Unit → Except ε β} {result : β} :
    (check >>= next) = .ok result ↔ check = .ok () ∧ next () = .ok result := by
  cases check <;> simp

/-- A check of every entry of a list succeeds if it does on each. -/
theorem forM_eq_ok_iff {check : α → Except ε Unit} {entries : List α} :
    entries.forM check = .ok () ↔ ∀ entry ∈ entries, check entry = .ok () := by
  rw [List.forM_eq_forM]
  induction entries with
  | nil => simp
  | cons entry rest ih => rw [List.forM_cons, check_bind_eq_ok_iff, List.forall_mem_cons, ih]

end TimedCommands
