import TimedCommands.Proofs.Group.Chain

/-!
# What a slot evaluates to

The value of a slot is told without the evaluator: follow the chain of references from
the slot; where it ends, the last slot gives a value or a fault of its own (`Gives`);
where it comes back to a slot, it is a cycle. `evaluate_follows_chain` shows that
evaluation answers exactly this, for every group and whatever the references are.

`Remembers` is the invariant of the remembered values: each is what the chain of its
slot ends in. It makes `pull_of_endsAt` and `pull_of_endless` hold for every chain that
led to a slot and everything remembered before, not only for a first evaluation.
-/

namespace TimedCommands.Group

variable {group : Group} {iteration : Nat} {slot last : SlotName} {chain : List SlotName}
  {known : SlotValues} {outcome : Except Fault Value}

/-- What a slot that is bound to no reference comes to at a repetition. -/
inductive Gives (group : Group) (iteration : Nat) (slot : SlotName) :
    Except Fault Value → Prop where
  | constant {value : Value} (bound : group.binding? slot = some (some (.constant value))) :
      Gives group iteration slot (.ok value)
  | progression {rule : Progression} {value : Value}
      (bound : group.binding? slot = some (some (.progression rule)))
      (inRange : rule.value? iteration = some value) : Gives group iteration slot (.ok value)
  | overflow {rule : Progression}
      (bound : group.binding? slot = some (some (.progression rule)))
      (beyond : rule.value? iteration = none) :
      Gives group iteration slot (.error (.sequenceOverflow slot iteration))
  | coordinate {axis : LatticeAxis}
      (bound : group.binding? slot = some (some (.coordinate axis))) :
      Gives group iteration slot (.ok (.real (axis.value iteration)))
  | unknown (undeclared : group.declares slot = false) :
      Gives group iteration slot (.error (.unknownSlot slot))
  | unbound (bare : group.binding? slot = some none) :
      Gives group iteration slot (.error (.unboundSlot slot))

/-- A slot that does not lead on gives a value or a fault. -/
theorem exists_gives (stops : group.source? slot = none) (iteration : Nat) :
    ∃ outcome, group.Gives iteration slot outcome := by
  cases found : group.binding? slot with
  | none => exact ⟨_, .unknown (binding?_eq_none_iff.mp found)⟩
  | some entry =>
    cases entry with
    | none => exact ⟨_, .unbound found⟩
    | some binding =>
      cases binding with
      | constant value => exact ⟨_, .constant found⟩
      | progression rule =>
        cases value : rule.value? iteration with
        | none => exact ⟨_, .overflow found value⟩
        | some value => exact ⟨_, .progression found value⟩
      | coordinate axis => exact ⟨_, .coordinate found⟩
      | reference source => simp [source?_eq_some_iff.mpr found] at stops

/-- A slot gives one thing only. -/
theorem Gives.unique {other : Except Fault Value} (here : group.Gives iteration slot outcome)
    (there : group.Gives iteration slot other) : outcome = other := by
  cases here <;> cases there <;> simp_all [← binding?_eq_none_iff]

/-! Pulling a slot, case by case. -/

/-- A value that is known is not evaluated again. -/
theorem pull_of_lookup {value : Value} (found : known.lookup slot = some value) :
    group.pull iteration chain known slot = .ok (value, known) := by
  rw [pull, found]

/-- A slot that is met again closes a cycle. -/
theorem pull_of_passed (new : known.lookup slot = none) (passed : slot ∈ chain) :
    group.pull iteration chain known slot = .error (.cyclicReference (cyclePath chain slot)) := by
  rw [pull, new]
  simp [passed]

/-- A slot at the end of its chain is evaluated to what it gives, and a value is remembered. -/
theorem pull_of_gives (new : known.lookup slot = none) (outside : slot ∉ chain)
    (gives : group.Gives iteration slot outcome) :
    group.pull iteration chain known slot =
      outcome.map fun value => (value, (slot, value) :: known) := by
  rw [pull, new]
  cases gives with
  | unknown undeclared =>
    have missing := binding?_eq_none_iff.mpr undeclared
    simp only [outside, ↓reduceDIte]
    split <;> simp_all [Except.map]
  | _ =>
    simp only [outside, ↓reduceDIte]
    split <;> simp_all [Except.map]

/-- A slot that leads on is evaluated to its source's value, which is remembered for it too. -/
theorem pull_of_source? {source : SlotName} (new : known.lookup slot = none)
    (outside : slot ∉ chain) (leads : group.source? slot = some source) :
    group.pull iteration chain known slot =
      (group.pull iteration (chain ++ [slot]) known source).map
        fun (value, known) => (value, (slot, value) :: known) := by
  have bound := source?_eq_some_iff.mp leads
  rw [pull, new]
  simp only [outside, ↓reduceDIte]
  split <;> simp_all [Except.map]
  split <;> simp_all

/-- Every remembered value is the one that the chain of its slot ends in. -/
def Remembers (group : Group) (iteration : Nat) (known : SlotValues) : Prop :=
  ∀ slot value, known.lookup slot = some value →
    ∃ last, group.EndsAt slot last ∧ group.Gives iteration last (.ok value)

/-- Nothing is remembered at first. -/
theorem remembers_nil : group.Remembers iteration [] := by
  intro slot value found
  simp at found

/-- A value that a chain gives may be remembered for the slot where it starts. -/
theorem Remembers.cons {value : Value} (remembers : group.Remembers iteration known)
    (ends : group.EndsAt slot last) (gives : group.Gives iteration last (.ok value)) :
    group.Remembers iteration ((slot, value) :: known) := by
  intro other found lookedUp
  rw [List.lookup_cons] at lookedUp
  by_cases same : other = slot
  · subst other
    simp only [beq_self_eq_true, Option.some.injEq] at lookedUp
    exact ⟨last, ends, lookedUp ▸ gives⟩
  · simp only [beq_eq_false_iff_ne.mpr same] at lookedUp
    exact remembers other found lookedUp

/-- A remembered slot comes to what the end of its chain gives. -/
theorem pull_of_remembered {value : Value} (remembers : group.Remembers iteration known)
    (found : known.lookup slot = some value) (ends : group.EndsAt slot last)
    (gives : group.Gives iteration last outcome) :
    group.pull iteration chain known slot = outcome.map fun value => (value, known) := by
  obtain ⟨other, endsThere, givesThere⟩ := remembers slot value found
  cases ends.unique endsThere
  cases gives.unique givesThere
  exact pull_of_lookup found

/-- A slot whose chain ends comes to what the last slot gives, if the chain that led to it
has passed none of the slots that are still to come. -/
theorem pull_of_endsAt (remembers : group.Remembers iteration known)
    (ends : group.EndsAt slot last) (gives : group.Gives iteration last outcome)
    (apart : ∀ steps met, group.follow? slot steps = some met → met ∉ chain) :
    ∃ after, group.Remembers iteration after ∧
      group.pull iteration chain known slot = outcome.map fun value => (value, after) := by
  obtain ⟨steps, reached, stops⟩ := ends
  -- By induction on the way to the end of the chain. What is remembered is told by `Remembers`, and
  -- no slot ahead is waiting already, or the chain would come back to it and never end.
  induction steps generalizing slot chain with
  | zero =>
    obtain rfl : slot = last := Option.some.inj reached
    cases found : known.lookup slot with
    | some value =>
      exact ⟨known, remembers, pull_of_remembered remembers found (endsAt_self stops) gives⟩
    | none =>
      have pulled : group.pull iteration chain known slot =
          outcome.map fun value => (value, (slot, value) :: known) :=
        pull_of_gives found (apart 0 slot rfl) gives
      cases outcome with
      | error fault => exact ⟨known, remembers, pulled⟩
      | ok value => exact ⟨_, remembers.cons (endsAt_self stops) gives, pulled⟩
  | succ steps ih =>
    have ends : group.EndsAt slot last := ⟨steps + 1, reached, stops⟩
    cases found : known.lookup slot with
    | some value => exact ⟨known, remembers, pull_of_remembered remembers found ends gives⟩
    | none =>
      cases leads : group.source? slot with
      | none => simp [follow?_after_end follow?_zero leads (Nat.succ_pos steps)] at reached
      | some source =>
        have apartSource : ∀ further met, group.follow? source further = some met →
            met ∉ chain ++ [slot] := by
          intro further met metThere
          rw [← follow?_succ_of_source? leads] at metThere
          have notSlot : met ≠ slot := by
            rintro rfl
            exact not_revisits_of_endsAt ends
              ⟨met, 0, further + 1, Nat.succ_pos further, rfl, metThere⟩
          simp [apart (further + 1) met metThere, notSlot]
        rw [follow?_succ_of_source? leads] at reached
        obtain ⟨after, remembersAfter, pulled⟩ := ih apartSource reached
        rw [pull_of_source? found (apart 0 slot rfl) leads, pulled]
        cases outcome with
        | error fault => exact ⟨known, remembers, rfl⟩
        | ok value => exact ⟨_, remembersAfter.cons ends gives, rfl⟩

/-- A slot whose chain never ends is reported as a cycle. The path depends on the chain that
led to the slot, but not on what is remembered, as nothing on it ever gets a value. -/
theorem pull_of_endless (group : Group) (iteration : Nat) (chain : List SlotName)
    (slot : SlotName) (endless : ∀ last, ¬ group.EndsAt slot last) :
    ∃ path, ∀ known, group.Remembers iteration known →
      group.pull iteration chain known slot = .error (.cyclicReference path) := by
  have forgotten : ∀ known, group.Remembers iteration known → known.lookup slot = none := by
    intro known remembers
    by_contra found
    obtain ⟨value, found⟩ := Option.ne_none_iff_exists'.mp found
    obtain ⟨last, ends, -⟩ := remembers slot value found
    exact endless last ends
  by_cases passed : slot ∈ chain
  · exact ⟨_, fun known remembers => pull_of_passed (forgotten known remembers) passed⟩
  · cases leads : group.source? slot with
    | none => exact absurd (endsAt_self leads) (endless slot)
    | some source =>
      have endlessSource : ∀ last, ¬ group.EndsAt source last := fun last ends =>
        endless last ((endsAt_iff_of_source? leads).mpr ends)
      obtain ⟨path, looped⟩ := pull_of_endless group iteration (chain ++ [slot]) source endlessSource
      refine ⟨path, fun known remembers => ?_⟩
      rw [pull_of_source? (forgotten known remembers) passed leads, looped known remembers]
      rfl
termination_by (group.fresh chain).length
decreasing_by exact length_fresh_append_lt (mem_slotNames_of_source? leads) passed

/-- Evaluating a slot whose chain ends comes to what the last slot gives. -/
theorem evaluate_of_endsAt (ends : group.EndsAt slot last)
    (gives : group.Gives iteration last outcome) : group.evaluate slot iteration = outcome := by
  have apart : ∀ steps met, group.follow? slot steps = some met → met ∉ [] := by simp
  obtain ⟨after, -, pulled⟩ := pull_of_endsAt remembers_nil ends gives apart
  rw [evaluate, pulled]
  cases outcome <;> rfl

/-- A chain that never ends is evaluated to a cycle. -/
theorem evaluate_of_endless (endless : ∀ last, ¬ group.EndsAt slot last) (iteration : Nat) :
    ∃ path, group.evaluate slot iteration = .error (.cyclicReference path) := by
  obtain ⟨path, looped⟩ := pull_of_endless group iteration [] slot endless
  exact ⟨path, by rw [evaluate, looped [] remembers_nil]; rfl⟩

/-- Evaluation follows the chain of references: where the chain ends, the result is what the
last slot gives, and it is a cycle exactly if the chain meets a slot twice. Every slot falls
under one of the two, and under one outcome only. -/
theorem evaluate_follows_chain (group : Group) (slot : SlotName) (iteration : Nat) :
    (∀ last outcome, group.EndsAt slot last → group.Gives iteration last outcome →
      group.evaluate slot iteration = outcome) ∧
    ((∃ path, group.evaluate slot iteration = .error (.cyclicReference path)) ↔
      group.Revisits slot) ∧
    ((group.Revisits slot ∧ ∀ last, ¬ group.EndsAt slot last) ∨
      (¬ group.Revisits slot ∧ ∃! ending : SlotName × Except Fault Value,
        group.EndsAt slot ending.1 ∧ group.Gives iteration ending.1 ending.2)) := by
  refine ⟨fun last outcome => evaluate_of_endsAt, ?_, ?_⟩
  · constructor
    · rintro ⟨path, looped⟩
      refine (endsAt_or_revisits group slot).resolve_left ?_
      rintro ⟨last, ends⟩
      obtain ⟨outcome, gives⟩ := exists_gives ends.stops iteration
      rw [evaluate_of_endsAt ends gives] at looped
      cases looped
      cases gives
    · intro revisits
      exact evaluate_of_endless (fun last ends => not_revisits_of_endsAt ends revisits) iteration
  · rcases endsAt_or_revisits group slot with ⟨last, ends⟩ | revisits
    · obtain ⟨outcome, gives⟩ := exists_gives ends.stops iteration
      refine .inr ⟨not_revisits_of_endsAt ends, (last, outcome), ⟨ends, gives⟩, ?_⟩
      rintro ⟨other, otherOutcome⟩ ⟨endsThere, givesThere⟩
      cases ends.unique endsThere
      rw [gives.unique givesThere]
    · exact .inl ⟨revisits, fun last ends => not_revisits_of_endsAt ends revisits⟩

end TimedCommands.Group
