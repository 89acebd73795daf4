import TimedCommands.Proofs.Group.Resolution

/-!
# Reported cycles

A cycle is found where a reference leads back into the chain of slots that led to it. What is
reported is the part of the chain from there on, closed by the same slot. It is a cycle of the group
(`IsCycle`) because the chain is a trail: its slots are pairwise distinct, and each is bound to a
reference to the next (`Trail`). A trail is only ever made longer, by a slot that it has not passed,
so this holds wherever a slot is pulled and whatever is remembered by then (`isCycle_of_pull`).

From a slot there is one way on at most. So nothing else could be reported: a path is reported of a
slot exactly if it is the cycle that its references run into (`evaluate_eq_cyclic_iff`).
-/

namespace TimedCommands.Group

variable {group : Group} {iteration : Nat} {origin slot source : SlotName}
  {chain lead path : List SlotName}

/-- A cycle of references, closed by its first slot: no other slot is met twice, and each is
declared and bound to a reference to the next. -/
structure IsCycle (group : Group) (path : List SlotName) : Prop where
  long : 2 ≤ path.length
  closed : path.head? = path.getLast?
  distinct : path.dropLast.Nodup
  declared : ∀ slot ∈ path.dropLast, group.declares slot
  linked : path.IsChain fun slot next => group.binding? slot = some (some (.reference next))

/-- The references from a slot lead through some slots into a path. No slot is met twice, unless at
the very end of the path. -/
structure LeadsInto (group : Group) (slot : SlotName) (lead path : List SlotName) : Prop where
  begins : (lead ++ path).head? = some slot
  linked : (lead ++ path).IsChain fun slot next => group.source? slot = some next
  distinct : (lead ++ path.dropLast).Nodup

/-- The references from a slot lead through the slots of a chain, all of them different, to a
slot. -/
structure Trail (group : Group) (origin : SlotName) (chain : List SlotName) (slot : SlotName) :
    Prop where
  begins : (chain ++ [slot]).head? = some origin
  linked : (chain ++ [slot]).IsChain fun slot next => group.source? slot = some next
  distinct : chain.Nodup

/-- A slot that leads on is declared. -/
theorem declares_of_source? (leads : group.source? slot = some source) : group.declares slot := by
  refine Bool.of_not_eq_false fun undeclared => ?_
  rw [source?, binding?_eq_none_iff.mpr undeclared] at leads
  cases leads

/-- Before a step is taken, the trail is empty. -/
theorem trail_self (group : Group) (slot : SlotName) : group.Trail slot [] slot where
  begins := rfl
  linked := .singleton slot
  distinct := .nil

/-- A trail goes on over a slot that it has not met yet. -/
theorem Trail.step (trail : group.Trail origin chain slot) (outside : slot ∉ chain)
    (leads : group.source? slot = some source) : group.Trail origin (chain ++ [slot]) source where
  begins := by
    rw [List.head?_append, trail.begins]
    rfl
  linked := by
    refine trail.linked.append (.singleton source) ?_
    simpa using leads
  distinct := by
    rw [List.nodup_append]
    refine ⟨trail.distinct, List.nodup_singleton slot, fun met isMet last isLast same => ?_⟩
    exact outside (List.mem_singleton.mp isLast ▸ same ▸ isMet)

/-- The slots of a chain of references are those that following references meets. -/
theorem follow?_of_isChain {slots : List SlotName}
    (linked : slots.IsChain fun slot next => group.source? slot = some next)
    (begins : slots.head? = some origin) {steps : Nat} (within : steps < slots.length) :
    group.follow? origin steps = slots[steps]? := by
  induction steps with
  | zero => rw [follow?_zero, ← begins, List.head?_eq_getElem?]
  | succ steps ih =>
    have before : steps < slots.length := Nat.lt_of_succ_lt within
    have leads := List.isChain_iff_getElem.mp linked steps within
    rw [follow?_succ, ih before, List.getElem?_eq_getElem before, List.getElem?_eq_getElem within]
    exact leads

/-- Every slot before the last one of a chain of references is declared. -/
theorem declares_of_isChain {slots : List SlotName}
    (linked : slots.IsChain fun slot next => group.source? slot = some next) :
    ∀ slot ∈ slots.dropLast, group.declares slot := by
  intro slot member
  obtain ⟨position, isPosition, rfl⟩ := List.getElem_of_mem member
  rw [List.length_dropLast] at isPosition
  rw [List.getElem_dropLast]
  exact declares_of_source? (List.isChain_iff_getElem.mp linked position (by omega))

/-- A chain is cut where it first meets the slot. -/
theorem cyclePath_append (outside : slot ∉ lead) (rest : List SlotName) :
    cyclePath (lead ++ slot :: rest) slot = slot :: rest ++ [slot] := by
  have skipped : ∀ met ∈ lead, met ≠ slot := fun met isMet same => outside (same ▸ isMet)
  rw [cyclePath, List.dropWhile_append_of_pos (by simpa using skipped)]
  simp

/-- A trail that comes back to one of its slots has run into a cycle there. -/
theorem Trail.isCycle (trail : group.Trail origin chain slot) (passed : slot ∈ chain) :
    group.IsCycle (cyclePath chain slot) ∧
      ∃ lead, group.LeadsInto origin lead (cyclePath chain slot) := by
  obtain ⟨lead, rest, rfl, outside⟩ := List.eq_append_cons_of_mem passed
  have whole : lead ++ slot :: rest ++ [slot] = lead ++ (slot :: rest ++ [slot]) :=
    List.append_assoc ..
  have linked := trail.linked
  rw [whole] at linked
  have onCycle := linked.right_of_append
  have inner : (slot :: rest ++ [slot]).dropLast = slot :: rest := List.dropLast_concat
  rw [cyclePath_append outside]
  refine ⟨⟨?_, ?_, ?_, declares_of_isChain onCycle, ?_⟩, lead, ?_, linked, ?_⟩
  · rw [List.length_append, List.length_cons, List.length_singleton]
    omega
  · rw [List.getLast?_concat]
    rfl
  · rw [inner]
    exact (List.nodup_append.mp trail.distinct).2.1
  · exact onCycle.imp fun slot next leads => source?_eq_some_iff.mp leads
  · rw [← whole]
    exact trail.begins
  · rw [inner]
    exact trail.distinct

/-- What is reported of a slot that is pulled at the end of a trail is a cycle that the references
run into, whatever is remembered. -/
theorem isCycle_of_pull (group : Group) (iteration : Nat) (chain : List SlotName)
    (known : SlotValues) (slot : SlotName) (trail : group.Trail origin chain slot)
    (cyclic : group.pull iteration chain known slot = .error (.cyclicReference path)) :
    group.IsCycle path ∧ ∃ lead, group.LeadsInto origin lead path := by
  cases found : known.lookup slot with
  | some value =>
    rw [pull_of_lookup found] at cyclic
    cases cyclic
  | none =>
    by_cases passed : slot ∈ chain
    · rw [pull_of_passed found passed] at cyclic
      cases cyclic
      exact trail.isCycle passed
    · cases leads : group.source? slot with
      | none =>
        obtain ⟨outcome, gives⟩ := exists_gives leads iteration
        rw [pull_of_gives found passed gives] at cyclic
        cases gives <;> cases cyclic
      | some source =>
        rw [pull_of_source? found passed leads] at cyclic
        cases pulled : group.pull iteration (chain ++ [slot]) known source with
        | ok result =>
          rw [pulled] at cyclic
          cases cyclic
        | error fault =>
          rw [pulled] at cyclic
          cases cyclic
          exact isCycle_of_pull group iteration (chain ++ [slot]) known source
            (trail.step passed leads) pulled
termination_by (group.fresh chain).length
decreasing_by exact length_fresh_append_lt (mem_slotNames_of_source? leads) passed

/-- Pulling goes along a chain of references up to where it leads back into itself. -/
theorem pull_of_isChain {first : SlotName} {rest : List SlotName}
    (linked : (chain ++ slot :: rest ++ [first]).IsChain fun slot next =>
      group.source? slot = some next)
    (distinct : (chain ++ slot :: rest).Nodup) (closes : first ∈ chain ++ slot :: rest) :
    group.pull iteration chain [] slot =
      .error (.cyclicReference (cyclePath (chain ++ slot :: rest) first)) := by
  induction rest generalizing chain slot with
  | nil =>
    have outside : slot ∉ chain := fun passed =>
      (List.nodup_append.mp distinct).2.2 slot passed slot (.head _) rfl
    rw [List.append_assoc] at linked
    have leads : group.source? slot = some first := linked.right_of_append.rel
    rw [pull_of_source? rfl outside leads, pull_of_passed rfl closes]
    rfl
  | cons next rest ih =>
    have outside : slot ∉ chain := fun passed =>
      (List.nodup_append.mp distinct).2.2 slot passed slot (.head _) rfl
    have shift : chain ++ slot :: next :: rest = chain ++ [slot] ++ next :: rest := by simp
    have onward := linked
    rw [List.append_assoc] at onward
    have leads : group.source? slot = some next := onward.right_of_append.rel
    rw [shift] at linked distinct closes ⊢
    rw [pull_of_source? rfl outside leads, ih linked distinct closes]
    rfl

/-- The way into a path is as long as what leads into it. -/
theorem LeadsInto.follow?_length (leadsInto : group.LeadsInto slot lead path)
    (some : path ≠ []) : group.follow? slot lead.length = path.head? := by
  have within : lead.length < (lead ++ path).length := by
    rw [List.length_append]
    exact Nat.lt_add_of_pos_right (List.length_pos_iff.mpr some)
  rw [follow?_of_isChain leadsInto.linked leadsInto.begins within,
    List.getElem?_append_right (Nat.le_refl _), Nat.sub_self, List.head?_eq_getElem?]

/-- A cycle comes back to its first slot. -/
theorem IsCycle.exists_eq (cycle : group.IsCycle path) :
    ∃ first rest, path = first :: rest ++ [first] := by
  obtain ⟨long, closed, -, -, -⟩ := cycle
  cases path with
  | nil => simp at long
  | cons first tail =>
    rcases List.eq_nil_or_concat tail with rfl | ⟨rest, last, rfl⟩
    · simp at long
    · rw [List.concat_eq_append, ← List.cons_append] at closed ⊢
      rw [List.getLast?_concat] at closed
      obtain rfl : first = last := Option.some.inj closed
      exact ⟨first, rest, rfl⟩

/-- A cycle is not empty. -/
theorem IsCycle.ne_nil (cycle : group.IsCycle path) : path ≠ [] := by
  rintro rfl
  exact absurd cycle.long (by decide)

/-- Evaluation reports a path exactly if it is a cycle that the references from the slot run
into. -/
theorem evaluate_eq_cyclic_iff :
    group.evaluate slot iteration = .error (.cyclicReference path) ↔
      group.IsCycle path ∧ ∃ lead, group.LeadsInto slot lead path := by
  constructor
  · intro cyclic
    cases pulled : group.pull iteration [] [] slot with
    | ok result =>
      rw [evaluate, pulled] at cyclic
      cases cyclic
    | error fault =>
      rw [evaluate, pulled] at cyclic
      cases cyclic
      exact isCycle_of_pull group iteration [] [] slot (group.trail_self slot) pulled
  · rintro ⟨cycle, lead, begins, linked, distinct⟩
    obtain ⟨first, rest, rfl⟩ := cycle.exists_eq
    rw [List.dropLast_concat] at distinct
    have outside : first ∉ lead := fun isMet =>
      (List.nodup_append.mp distinct).2.2 first isMet first (.head _) rfl
    obtain ⟨others, whole⟩ : ∃ others, lead ++ first :: rest = slot :: others := by
      cases lead with
      | nil => exact ⟨rest, by simpa using begins⟩
      | cons origin lead => exact ⟨lead ++ first :: rest, by simpa using begins⟩
    have closes : first ∈ lead ++ first :: rest := by simp
    rw [← List.append_assoc, whole] at linked
    rw [whole] at distinct closes
    have pulled : group.pull iteration [] [] slot =
        .error (.cyclicReference (cyclePath (slot :: others) first)) :=
      pull_of_isChain linked distinct closes
    rw [evaluate, pulled, ← whole, cyclePath_append outside]
    rfl

/-- A group that does not resolve has the fault of a slot of an enabled command. -/
theorem exists_evaluate_of_resolve {fault : Fault}
    (fails : group.resolve iteration = .error fault) :
    ∃ slot ∈ group.enabledSlots, group.evaluate slot iteration = .error fault := by
  rcases resolveCommands_spec remembers_nil group.indexed with
    ⟨resolved, succeeds, -⟩ | ⟨other, failsThere, before, slot, after, slots, -, failing⟩
  · cases succeeds.symm.trans fails
  · cases failsThere.symm.trans fails
    exact ⟨slot, by simp [enabledSlots_eq_flatMap, slots], failing⟩

/-- A cycle that is reported is one. Its path has two entries at least, comes back to its first
slot, and has no other slot twice; every slot on it is declared and bound to a reference to exactly
the next. Following references leads to its first slot, from the slot that was evaluated or, if the
group was resolved, from a slot of an enabled command. And no cycle is missed: a path is reported of
a slot exactly if it is a cycle that the references from the slot run into. -/
theorem reported_cycles_are_genuine (group : Group) (iteration : Nat) :
    (∀ slot path, group.evaluate slot iteration = .error (.cyclicReference path) →
      group.IsCycle path ∧ ∃ steps, group.follow? slot steps = path.head?) ∧
    (∀ path, group.resolve iteration = .error (.cyclicReference path) →
      group.IsCycle path ∧
        ∃ slot ∈ group.enabledSlots, ∃ steps, group.follow? slot steps = path.head?) ∧
    ∀ slot path, group.evaluate slot iteration = .error (.cyclicReference path) ↔
      group.IsCycle path ∧ ∃ lead, group.LeadsInto slot lead path := by
  have genuine : ∀ slot path, group.evaluate slot iteration = .error (.cyclicReference path) →
      group.IsCycle path ∧ ∃ steps, group.follow? slot steps = path.head? := by
    intro slot path cyclic
    obtain ⟨cycle, lead, leadsInto⟩ := evaluate_eq_cyclic_iff.mp cyclic
    exact ⟨cycle, lead.length, leadsInto.follow?_length cycle.ne_nil⟩
  refine ⟨genuine, fun path cyclic => ?_, fun slot path => evaluate_eq_cyclic_iff⟩
  obtain ⟨slot, enabled, failing⟩ := exists_evaluate_of_resolve cyclic
  obtain ⟨cycle, reached⟩ := genuine slot path failing
  exact ⟨cycle, slot, enabled, reached⟩

/-- A cycle is reported without the slots that only lead into it. -/
example :
    let refers (placeholder : Placeholder) (source : SlotName) : Command :=
      ⟨"move", [⟨placeholder, some (.reference source)⟩], true⟩
    let group : Group :=
      ⟨"G", [refers "a" ⟨⟨1⟩, "b"⟩, refers "b" ⟨⟨2⟩, "c"⟩, refers "c" ⟨⟨1⟩, "b"⟩]⟩
    group.evaluate ⟨⟨0⟩, "a"⟩ 0 =
      .error (.cyclicReference [⟨⟨1⟩, "b"⟩, ⟨⟨2⟩, "c"⟩, ⟨⟨1⟩, "b"⟩]) := by
  decide +kernel

end TimedCommands.Group
