import Mathlib.Data.List.Forall2
import TimedCommands.Proofs.Group.Evaluation
import TimedCommands.Proofs.Outcome

/-!
# Resolving agrees with evaluating

Resolving shares what it remembers among all slots of a repetition, while evaluating
starts anew for every slot. `resolve_agrees_with_evaluate` shows that this makes no
difference: neither to a value nor to a fault, the path of a cycle included. A remembered
value never decides more than the slot would have come to anyway (`pull_eq_evaluate`),
and every list of slots is pulled until the first that does not evaluate.
-/

namespace TimedCommands.Group

variable {group : Group} {iteration : Nat} {known : SlotValues} {slot : SlotName}
  {slots more : List SlotName} {fault : Fault} {value : Value}

/-- The slots that a repetition needs: those of the enabled commands, in the order of their
indices and then of their arguments. -/
def enabledSlots (group : Group) : List SlotName :=
  (group.commands.zipIdx.filter (·.1.enabled)).flatMap fun (command, position) =>
    command.slots.map fun slot => ⟨⟨position⟩, slot.placeholder⟩

/-- The first slot of a list that does not evaluate has a fault. -/
def FirstFault (group : Group) (iteration : Nat) (slots : List SlotName) (fault : Fault) : Prop :=
  ∃ before slot after, slots = before ++ slot :: after ∧
    (∀ earlier ∈ before, ∃ value, group.evaluate earlier iteration = .ok value) ∧
    group.evaluate slot iteration = .error fault

/-- The slots of a list evaluate to the values of another. -/
def EvaluatesTo (group : Group) (iteration : Nat) : List SlotName → List Value → Prop :=
  List.Forall₂ fun slot value => group.evaluate slot iteration = .ok value

/-- A resolved command stands for a command at an index: it has its type and, slot by slot, the
values that its slots evaluate to. -/
structure Resolves (group : Group) (iteration : Nat) (entry : CommandIndex × Command)
    (resolved : ResolvedCommand) : Prop where
  index : resolved.index = entry.1
  typeName : resolved.typeName = entry.2.typeName
  arguments : List.Forall₂
    (fun slot value => group.evaluate ⟨entry.1, slot.placeholder⟩ iteration = .ok value)
    entry.2.slots resolved.arguments

/-- The enabled commands stand in a group in the order in which it is resolved. -/
theorem filter_indexed (group : Group) :
    (group.indexed.filter fun entry => entry.2.enabled) =
      (group.commands.zipIdx.filter (·.1.enabled)).map fun entry => (⟨entry.2⟩, entry.1) := by
  rw [indexed, List.filter_map]
  rfl

/-- The slots that a repetition needs are those of the enabled commands, one command after the
other. -/
theorem enabledSlots_eq_flatMap (group : Group) :
    group.enabledSlots =
      (group.indexed.filter fun entry => entry.2.enabled).flatMap fun entry =>
        slotsOf entry.1 entry.2 := by
  rw [filter_indexed, List.flatMap_map, enabledSlots]
  refine List.flatMap_congr fun entry _ => ?_
  rw [slotsOf, Command.placeholders, List.map_map]
  rfl

/-- The arguments of a command are right slot by slot exactly if the slots of the command evaluate
to them. -/
theorem evaluatesTo_slotsOf_iff {index : CommandIndex} {command : Command} {values : List Value} :
    group.EvaluatesTo iteration (slotsOf index command) values ↔
      List.Forall₂ (fun slot value => group.evaluate ⟨index, slot.placeholder⟩ iteration = .ok value)
        command.slots values := by
  rw [EvaluatesTo, slotsOf, Command.placeholders, List.map_map, List.forall₂_map_left_iff]
  rfl

/-- Where slots evaluate to values, each of them has one. -/
theorem EvaluatesTo.ok {values : List Value} (evaluates : group.EvaluatesTo iteration slots values)
    {slot : SlotName} (member : slot ∈ slots) :
    ∃ value, group.evaluate slot iteration = .ok value := by
  induction evaluates with
  | nil => simp at member
  | cons first rest ih =>
    rcases List.mem_cons.mp member with rfl | later
    · exact ⟨_, first⟩
    · exact ih later

/-- The first fault is that of the first slot, or the first of the others if that one has a
value. -/
theorem firstFault_cons_iff :
    group.FirstFault iteration (slot :: slots) fault ↔
      group.evaluate slot iteration = .error fault ∨
      (∃ value, group.evaluate slot iteration = .ok value) ∧
        group.FirstFault iteration slots fault := by
  constructor
  · rintro ⟨before, failing, after, split, earlier, fails⟩
    cases before with
    | nil =>
      obtain ⟨rfl, -⟩ := List.cons.inj split
      exact .inl fails
    | cons first before =>
      obtain ⟨rfl, rfl⟩ := List.cons.inj split
      exact .inr ⟨earlier slot (by simp), before, failing, after, rfl,
        fun other member => earlier other (by simp [member]), fails⟩
  · rintro (fails | ⟨succeeds, before, failing, after, rfl, earlier, fails⟩)
    · exact ⟨[], slot, slots, rfl, by simp, fails⟩
    · refine ⟨slot :: before, failing, after, rfl, fun other member => ?_, fails⟩
      rcases List.mem_cons.mp member with rfl | later
      · exact succeeds
      · exact earlier other later

/-- The first fault remains the first, whatever slots follow. -/
theorem FirstFault.append_right (fails : group.FirstFault iteration slots fault)
    (more : List SlotName) : group.FirstFault iteration (slots ++ more) fault := by
  obtain ⟨before, slot, after, rfl, earlier, fails⟩ := fails
  exact ⟨before, slot, after ++ more, by simp, earlier, fails⟩

/-- The first fault remains the first behind slots that have values. -/
theorem FirstFault.append_left (fails : group.FirstFault iteration more fault)
    (evaluates : ∀ slot ∈ slots, ∃ value, group.evaluate slot iteration = .ok value) :
    group.FirstFault iteration (slots ++ more) fault := by
  induction slots with
  | nil => exact fails
  | cons slot slots ih =>
    exact firstFault_cons_iff.mpr (.inr ⟨evaluates slot (by simp),
      ih fun other member => evaluates other (by simp [member])⟩)

/-- Where there is a first fault, not all slots have values. -/
theorem FirstFault.not_all_ok (fails : group.FirstFault iteration slots fault) :
    ¬ ∀ slot ∈ slots, ∃ value, group.evaluate slot iteration = .ok value := by
  obtain ⟨before, slot, after, rfl, -, fails⟩ := fails
  intro evaluates
  obtain ⟨value, succeeds⟩ := evaluates slot (by simp)
  simp [fails] at succeeds

/-- There is one first fault only. -/
theorem FirstFault.unique {other : Fault} (here : group.FirstFault iteration slots fault)
    (there : group.FirstFault iteration slots other) : fault = other := by
  induction slots with
  | nil => exact absurd (by simp) here.not_all_ok
  | cons slot slots ih =>
    rcases firstFault_cons_iff.mp here with fails | ⟨⟨value, succeeds⟩, fails⟩ <;>
      rcases firstFault_cons_iff.mp there with failsThere | ⟨⟨value, succeedsThere⟩, failsThere⟩
    · exact Except.error.inj (fails.symm.trans failsThere)
    · cases fails.symm.trans succeedsThere
    · cases succeeds.symm.trans failsThere
    · exact ih fails failsThere

/-- Whatever is remembered, a slot comes to what it evaluates to. -/
theorem pull_eq_evaluate (remembers : group.Remembers iteration known) (slot : SlotName) :
    ∃ after, group.Remembers iteration after ∧
      group.pull iteration [] known slot =
        (group.evaluate slot iteration).map fun value => (value, after) := by
  rcases endsAt_or_revisits group slot with ⟨last, ends⟩ | revisits
  · obtain ⟨outcome, gives⟩ := exists_gives ends.stops iteration
    have apart : ∀ steps met, group.follow? slot steps = some met → met ∉ [] := by simp
    obtain ⟨after, remembersAfter, pulled⟩ := pull_of_endsAt remembers ends gives apart
    exact ⟨after, remembersAfter, by rw [pulled, evaluate_of_endsAt ends gives]⟩
  · have endless : ∀ last, ¬ group.EndsAt slot last := fun last ends =>
      not_revisits_of_endsAt ends revisits
    obtain ⟨path, looped⟩ := pull_of_endless group iteration [] slot endless
    refine ⟨known, remembers, ?_⟩
    rw [evaluate, looped known remembers, looped [] remembers_nil]
    rfl

/-- Pulling slots in order gives what they evaluate to, or the first fault among them. -/
theorem pullAll_spec (remembers : group.Remembers iteration known) (slots : List SlotName) :
    (∃ values after, group.Remembers iteration after ∧ group.EvaluatesTo iteration slots values ∧
      group.pullAll iteration slots known = .ok (values, after)) ∨
    ∃ fault, group.FirstFault iteration slots fault ∧
      group.pullAll iteration slots known = .error fault := by
  induction slots generalizing known with
  | nil => exact .inl ⟨[], known, remembers, .nil, rfl⟩
  | cons slot rest ih =>
    obtain ⟨after, remembersAfter, pulled⟩ := pull_eq_evaluate remembers slot
    cases evaluated : group.evaluate slot iteration with
    | error fault =>
      rw [evaluated] at pulled
      exact .inr ⟨fault, firstFault_cons_iff.mpr (.inl evaluated), by simp [pullAll, pulled]⟩
    | ok value =>
      rw [evaluated] at pulled
      rcases ih remembersAfter with ⟨values, final, remembersFinal, evaluates, pulledRest⟩ |
        ⟨fault, fails, pulledRest⟩
      · exact .inl ⟨value :: values, final, remembersFinal, .cons evaluated evaluates,
          by simp [pullAll, pulled, pulledRest]⟩
      · exact .inr ⟨fault, firstFault_cons_iff.mpr (.inr ⟨⟨value, evaluated⟩, fails⟩),
          by simp [pullAll, pulled, pulledRest]⟩

/-- Resolving commands in order gives a resolved command for each enabled one, or the first
fault among their slots. -/
theorem resolveCommands_spec (remembers : group.Remembers iteration known)
    (commands : List (CommandIndex × Command)) :
    (∃ resolved, group.resolveCommands iteration commands known = .ok resolved ∧
      List.Forall₂ (group.Resolves iteration)
        (commands.filter fun entry => entry.2.enabled) resolved) ∨
    ∃ fault, group.resolveCommands iteration commands known = .error fault ∧
      group.FirstFault iteration
        ((commands.filter fun entry => entry.2.enabled).flatMap fun entry => slotsOf entry.1 entry.2)
        fault := by
  induction commands generalizing known with
  | nil => exact .inl ⟨[], rfl, .nil⟩
  | cons entry rest ih =>
    obtain ⟨index, command⟩ := entry
    cases enabled : command.enabled with
    | false => simpa [resolveCommands, enabled] using ih remembers
    | true =>
      simp only [resolveCommands, enabled, ↓reduceIte, List.filter_cons_of_pos, List.flatMap_cons]
      rcases pullAll_spec remembers (slotsOf index command) with
        ⟨values, after, remembersAfter, evaluates, pulled⟩ | ⟨fault, fails, pulled⟩
      · rcases ih remembersAfter with ⟨resolved, resolvedRest, stand⟩ | ⟨fault, resolvedRest, fails⟩
        · refine .inl ⟨⟨index, command.typeName, values⟩ :: resolved, ?_, ?_⟩
          · simp [pulled, resolvedRest]
          · exact .cons ⟨rfl, rfl, evaluatesTo_slotsOf_iff.mp evaluates⟩ stand
        · refine .inr ⟨fault, by simp [pulled, resolvedRest], ?_⟩
          exact fails.append_left fun slot member => evaluates.ok member
      · exact .inr ⟨fault, by simp [pulled], fails.append_right _⟩

/-- The commands of a group stand in the order of their indices. -/
theorem pairwise_indexed (group : Group) :
    group.indexed.Pairwise fun left right => left.1.number < right.1.number := by
  have positions : (group.indexed.map fun entry => entry.1.position) =
      List.range group.commands.length := by
    simp [indexed, List.map_map, Function.comp_def, List.range_eq_range']
  have ascending : (group.indexed.map fun entry => entry.1.position).Pairwise (· < ·) :=
    positions ▸ List.pairwise_lt_range
  exact (List.pairwise_map.mp ascending).imp fun before => Nat.succ_lt_succ before

/-- Resolved commands keep the order of the commands that they stand for. -/
theorem pairwise_index_of_resolves {commands : List (CommandIndex × Command)}
    {resolved : List ResolvedCommand}
    (ascending : commands.Pairwise fun left right => left.1.number < right.1.number)
    (stand : List.Forall₂ (group.Resolves iteration) commands resolved) :
    resolved.Pairwise fun left right => left.index.number < right.index.number := by
  have indices : resolved.map (·.index) = commands.map (·.1) := by
    induction stand with
    | nil => rfl
    | cons first _ ih => simp [first.index, ih ascending.of_cons]
  have sorted : (commands.map (·.1)).Pairwise fun left right => left.number < right.number :=
    List.pairwise_map.mpr ascending
  rwa [← indices, List.pairwise_map] at sorted

/-- Slots of commands that all resolve evaluate. -/
theorem evaluates_of_resolves {commands : List (CommandIndex × Command)}
    {resolved : List ResolvedCommand}
    (stand : List.Forall₂ (group.Resolves iteration) commands resolved) :
    ∀ slot ∈ commands.flatMap fun entry => slotsOf entry.1 entry.2,
      ∃ value, group.evaluate slot iteration = .ok value := by
  induction stand with
  | nil => simp
  | cons first _ ih =>
    intro slot member
    rw [List.flatMap_cons] at member
    rcases List.mem_append.mp member with here | later
    · exact (evaluatesTo_slotsOf_iff.mpr first.arguments).ok here
    · exact ih slot later

/-- Resolving a group succeeds exactly if every slot of every enabled command evaluates. It
then gives the enabled commands in strictly increasing index order, each with the values
that its slots evaluate to, and it fails with a fault exactly if that is the fault of the
first slot that does not evaluate. -/
theorem resolve_agrees_with_evaluate (group : Group) (iteration : Nat) :
    ((∃ resolved, group.resolve iteration = .ok resolved) ↔
      ∀ slot ∈ group.enabledSlots, ∃ value, group.evaluate slot iteration = .ok value) ∧
    (∀ resolved, group.resolve iteration = .ok resolved →
      resolved.Pairwise (fun left right => left.index.number < right.index.number) ∧
      List.Forall₂ (fun entry => group.Resolves iteration (⟨entry.2⟩, entry.1))
        (group.commands.zipIdx.filter (·.1.enabled)) resolved) ∧
    ∀ fault, group.resolve iteration = .error fault ↔
      group.FirstFault iteration group.enabledSlots fault := by
  rw [enabledSlots_eq_flatMap]
  rcases resolveCommands_spec remembers_nil group.indexed with
    ⟨resolved, succeeds, stand⟩ | ⟨fault, fails, first⟩
  · have evaluates := evaluates_of_resolves stand
    have ascending := (pairwise_indexed group).filter fun entry => entry.2.enabled
    refine ⟨⟨fun _ => evaluates, fun _ => ⟨resolved, succeeds⟩⟩, ?_, fun fault => ?_⟩
    · intro other succeedsThere
      obtain rfl : resolved = other := Except.ok.inj (succeeds.symm.trans succeedsThere)
      refine ⟨pairwise_index_of_resolves ascending stand, ?_⟩
      rwa [filter_indexed, List.forall₂_map_left_iff] at stand
    · constructor
      · intro fails
        cases succeeds.symm.trans fails
      · intro first
        exact absurd evaluates first.not_all_ok
  · refine ⟨⟨?_, fun evaluates => absurd evaluates first.not_all_ok⟩, ?_, fun other => ?_⟩
    · rintro ⟨resolved, succeeds⟩
      cases succeeds.symm.trans fails
    · intro resolved succeeds
      cases succeeds.symm.trans fails
    · constructor
      · intro failsThere
        obtain rfl : fault = other := Except.error.inj (fails.symm.trans failsThere)
        exact first
      · intro firstThere
        rw [firstThere.unique first]
        exact fails

end TimedCommands.Group
