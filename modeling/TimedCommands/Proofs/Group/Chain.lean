import Mathlib.Data.Fintype.Pigeonhole
import TimedCommands.Group.Resolve

/-!
# Chains of references

A slot that is bound to a reference takes its value from another slot, which may again
be bound to a reference. `Group.follow?` names the slots that are met on the way. The
chain from a slot either ends at exactly one slot or comes back to a slot it has met:
`endsAt_or_revisits` shows that there is no third case, because only declared slots
lead on and a group declares finitely many, and `not_revisits_of_endsAt` that the two
exclude each other.
-/

namespace TimedCommands.Group

variable {group : Group} {slot last : SlotName}

/-- A slot has no entry among the bindings exactly if it is not declared. -/
theorem binding?_eq_none_iff : group.binding? slot = none ↔ group.declares slot = false := by
  unfold binding? declares
  cases group.command? slot.command with
  | none => simp
  | some command => cases declared : command.slot? slot.placeholder <;> simp [declared]

/-- The slot that a slot takes its value from, if it is bound to a reference. -/
def source? (group : Group) (slot : SlotName) : Option SlotName :=
  match group.binding? slot with
  | some (some (.reference source)) => some source
  | _ => none

/-- A slot leads on exactly if a reference is bound to it. -/
theorem source?_eq_some_iff {source : SlotName} :
    group.source? slot = some source ↔ group.binding? slot = some (some (.reference source)) := by
  unfold source?
  split <;> simp_all

/-- A slot that leads on is declared. -/
theorem mem_slotNames_of_source? {source : SlotName} (leads : group.source? slot = some source) :
    slot ∈ group.slotNames :=
  mem_slotNames_of_binding? (source?_eq_some_iff.mp leads)

/-- The slot that following a number of references from a slot leads to. -/
def follow? (group : Group) (slot : SlotName) : (steps : Nat) → Option SlotName
  | 0 => some slot
  | steps + 1 => (group.follow? slot steps).bind group.source?

/-- No step leads nowhere. -/
@[simp] theorem follow?_zero : group.follow? slot 0 = some slot := rfl

/-- One step more leads to the source of where the steps before have led. -/
theorem follow?_succ (steps : Nat) :
    group.follow? slot (steps + 1) = (group.follow? slot steps).bind group.source? := rfl

/-- The chain of a reference is its slot, and then the chain of its source. -/
theorem follow?_succ_of_source? {source : SlotName} (leads : group.source? slot = some source)
    (steps : Nat) : group.follow? slot (steps + 1) = group.follow? source steps := by
  induction steps with
  | zero => simp [follow?, leads]
  | succ steps ih => rw [follow?_succ, ih, follow?_succ]

/-- What follows a slot that is met twice is the same both times. -/
theorem follow?_add_of_eq {first second : Nat}
    (same : group.follow? slot first = group.follow? slot second) (steps : Nat) :
    group.follow? slot (first + steps) = group.follow? slot (second + steps) := by
  induction steps with
  | zero => simpa using same
  | succ steps ih => rw [← Nat.add_assoc, ← Nat.add_assoc, follow?_succ, follow?_succ, ih]

/-- A chain that has ended does not go on. -/
theorem follow?_eq_none_of_le {steps later : Nat} (ended : group.follow? slot steps = none)
    (after : steps ≤ later) : group.follow? slot later = none := by
  induction later, after using Nat.le_induction with
  | base => exact ended
  | succ later _ ih => rw [follow?_succ, ih, Option.bind_none]

/-- The chain from a slot ends at `last`: it leads there, and no reference leads on. -/
def EndsAt (group : Group) (slot last : SlotName) : Prop :=
  ∃ steps, group.follow? slot steps = some last ∧ group.source? last = none

/-- The chain from a slot meets some slot twice. -/
def Revisits (group : Group) (slot : SlotName) : Prop :=
  ∃ met first second, first < second ∧
    group.follow? slot first = some met ∧ group.follow? slot second = some met

/-- A slot that does not lead on is where its chain ends. -/
theorem endsAt_self (stops : group.source? slot = none) : group.EndsAt slot slot :=
  ⟨0, rfl, stops⟩

/-- Where a chain ends, no reference is bound. -/
theorem EndsAt.stops (ends : group.EndsAt slot last) : group.source? last = none :=
  ends.choose_spec.2

/-- The chain of a slot ends where that of its source ends. -/
theorem endsAt_iff_of_source? {source : SlotName} (leads : group.source? slot = some source) :
    group.EndsAt slot last ↔ group.EndsAt source last := by
  constructor
  · rintro ⟨steps, reached, stops⟩
    cases steps with
    | zero =>
      cases reached
      simp [leads] at stops
    | succ steps => exact ⟨steps, by rwa [follow?_succ_of_source? leads] at reached, stops⟩
  · rintro ⟨steps, reached, stops⟩
    exact ⟨steps + 1, by rwa [follow?_succ_of_source? leads], stops⟩

/-- A slot that is met is the last one that the chain meets, if no reference leads on. -/
theorem follow?_after_end {steps later : Nat} (reached : group.follow? slot steps = some last)
    (stops : group.source? last = none) (after : steps < later) :
    group.follow? slot later = none := by
  have ended : group.follow? slot (steps + 1) = none := by
    rw [follow?_succ, reached, Option.bind_some, stops]
  exact follow?_eq_none_of_le ended after

/-- A chain ends at one slot only. -/
theorem EndsAt.unique {other : SlotName} (here : group.EndsAt slot last)
    (there : group.EndsAt slot other) : last = other := by
  obtain ⟨steps, reached, stops⟩ := here
  obtain ⟨others, reachedOther, stopsOther⟩ := there
  rcases Nat.lt_trichotomy steps others with before | rfl | behind
  · simp [follow?_after_end reached stops before] at reachedOther
  · exact Option.some.inj (reached.symm.trans reachedOther)
  · simp [follow?_after_end reachedOther stopsOther behind] at reached

/-- A chain that ends meets no slot twice: it would go round for ever. -/
theorem not_revisits_of_endsAt (ends : group.EndsAt slot last) : ¬ group.Revisits slot := by
  rintro ⟨met, first, second, before, metFirst, metSecond⟩
  obtain ⟨steps, reached, stops⟩ := ends
  have within : second ≤ steps := by
    by_contra beyond
    simp [follow?_after_end reached stops (Nat.lt_of_not_le beyond)] at metSecond
  have again := follow?_add_of_eq (metFirst.trans metSecond.symm) (steps - second)
  rw [Nat.add_sub_cancel' within, reached] at again
  have ended := follow?_after_end again stops (show first + (steps - second) < steps by omega)
  simp [reached] at ended

/-- A chain without an end meets a declared slot at every step. -/
theorem follow?_of_endless (endless : ∀ last, ¬ group.EndsAt slot last) (steps : Nat) :
    ∃ met, group.follow? slot steps = some met ∧ met ∈ group.slotNames := by
  have leadsOn : ∀ met, group.follow? slot steps = some met → group.source? met ≠ none :=
    fun met reached stops => endless met ⟨steps, reached, stops⟩
  induction steps with
  | zero =>
    obtain ⟨source, leads⟩ := Option.ne_none_iff_exists'.mp (leadsOn slot rfl)
    exact ⟨slot, rfl, mem_slotNames_of_source? leads⟩
  | succ steps ih =>
    obtain ⟨before, reached, -⟩ := ih fun met reached stops => endless met ⟨steps, reached, stops⟩
    cases source : group.source? before with
    | none => exact absurd ⟨steps, reached, source⟩ (endless before)
    | some met =>
      have next : group.follow? slot (steps + 1) = some met := by
        rw [follow?_succ, reached, Option.bind_some, source]
      obtain ⟨further, leads⟩ := Option.ne_none_iff_exists'.mp (leadsOn met next)
      exact ⟨met, next, mem_slotNames_of_source? leads⟩

/-- A chain without an end comes back to a slot, as there are only finitely many. -/
theorem endsAt_or_revisits (group : Group) (slot : SlotName) :
    (∃ last, group.EndsAt slot last) ∨ group.Revisits slot := by
  by_cases ends : ∃ last, group.EndsAt slot last
  · exact .inl ends
  · right
    choose met reached declared using follow?_of_endless (not_exists.mp ends)
    obtain ⟨first, second, different, same⟩ := Finite.exists_ne_map_eq_of_infinite
      fun steps => (⟨met steps, declared steps⟩ : {slot // slot ∈ group.slotNames})
    have sameSlot : met first = met second := congrArg Subtype.val same
    rcases Nat.lt_or_gt_of_ne different with before | behind
    · exact ⟨met first, first, second, before, reached first, sameSlot ▸ reached second⟩
    · exact ⟨met first, second, first, behind, sameSlot ▸ reached second, reached first⟩

end TimedCommands.Group
