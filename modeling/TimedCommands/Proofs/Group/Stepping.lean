import Mathlib.Logic.Relation
import TimedCommands.Proofs.Group.Resolution

/-!
# Resolving step by step

Pulling a slot is a recursion that hands its chain down. Here the same work is done by a loop
(`Resolving.step`) that keeps what the recursion leaves to its calls: the calls that wait for the
source of their reference, and one stack of active slots, onto which a reference is put before its
source is asked for and from which it is taken when the answer comes back, be it a value or a fault.
So there is a state at every point of an evaluation about which something can be said.

The loop comes to its end and answers what the recursion answers: `reaches_answered` for one call,
in the midst of any other calls and with the stack as it was before, `reaches_outcome` for the calls
of a whole list of slots, and from there for a single slot and for a group.
-/

namespace TimedCommands

/-- Where the resolving of slots stands. -/
inductive Point where
  /-- No call is under way. -/
  | idle
  /-- The value of a slot is called for. -/
  | asked (slot : SlotName)
  /-- The call for the value of a slot returns. -/
  | answered (slot : SlotName) (outcome : Except Fault Value)
  deriving Repr

/-- The slot whose value is called for or returned. -/
def Point.slot? : Point → Option SlotName
  | .idle => none
  | .asked slot => some slot
  | .answered slot _ => some slot

/-- How far the resolving of slots at one repetition has come. -/
structure Resolving where
  /-- The slots that are still to be called for, in order. -/
  wanted : List SlotName
  /-- The values of the slots before them. -/
  values : List Value
  known : SlotValues
  /-- The slots whose references led here, the oldest first. -/
  active : List SlotName
  /-- The slots whose calls wait for the value of their source, the innermost first. -/
  waiting : List SlotName
  point : Point
  deriving Repr

namespace Resolving

/-- Before anything has been called for. -/
def start (slots : List SlotName) : Resolving := ⟨slots, [], [], [], [], .idle⟩

/-- The calls that are under way, nested in each other. -/
def depth (resolving : Resolving) : Nat :=
  match resolving.point with
  | .idle => resolving.waiting.length
  | _ => resolving.waiting.length + 1

/-- A call that returns a fault. -/
def fail (resolving : Resolving) (slot : SlotName) (fault : Fault) : Resolving :=
  { resolving with point := .answered slot (.error fault) }

/-- A call that returns a value, which is remembered. -/
def learn (resolving : Resolving) (slot : SlotName) (value : Value) : Resolving :=
  { resolving with known := (slot, value) :: resolving.known, point := .answered slot (.ok value) }

/-- A call for the value of a slot. It returns at once unless the slot is bound to a reference that
is new: then the slot becomes active, and the call waits for the source. -/
def ask (group : Group) (iteration : Nat) (resolving : Resolving) (slot : SlotName) : Resolving :=
  match resolving.known.lookup slot with
  | some value => { resolving with point := .answered slot (.ok value) }
  | none =>
    if slot ∈ resolving.active then
      resolving.fail slot (.cyclicReference (Group.cyclePath resolving.active slot))
    else match group.binding? slot with
      | none => resolving.fail slot (.unknownSlot slot)
      | some none => resolving.fail slot (.unboundSlot slot)
      | some (some (.constant value)) => resolving.learn slot value
      | some (some (.progression rule)) =>
        match rule.value? iteration with
        | none => resolving.fail slot (.sequenceOverflow slot iteration)
        | some value => resolving.learn slot value
      | some (some (.coordinate axis)) => resolving.learn slot (.real (axis.value iteration))
      | some (some (.reference source)) =>
        { resolving with
          active := resolving.active ++ [slot], waiting := slot :: resolving.waiting,
          point := .asked source }

/-- A call returns to the one that waits for it, whose slot is taken off the stack whatever the
outcome. If none waits, the value is kept; a fault ends the resolving. -/
def back (resolving : Resolving) (outcome : Except Fault Value) : Option Resolving :=
  match resolving.waiting, outcome with
  | slot :: waiting, .ok value =>
    some ({ resolving with active := resolving.active.dropLast, waiting }.learn slot value)
  | slot :: waiting, .error fault =>
    some ({ resolving with active := resolving.active.dropLast, waiting }.fail slot fault)
  | [], .ok value => some { resolving with values := resolving.values ++ [value], point := .idle }
  | [], .error _ => none

/-- One step; there is none at the end. -/
def step (group : Group) (iteration : Nat) (resolving : Resolving) : Option Resolving :=
  match resolving.point with
  | .idle =>
    match resolving.wanted with
    | [] => none
    | slot :: wanted => some { resolving with wanted, point := .asked slot }
  | .asked slot => some (resolving.ask group iteration slot)
  | .answered _ outcome => resolving.back outcome

/-- What was found, at the end: the values of all slots, or the fault of one. -/
def outcome? (resolving : Resolving) : Option (Except Fault (List Value)) :=
  match resolving.point, resolving.wanted, resolving.waiting with
  | .idle, [], _ => some (.ok resolving.values)
  | .answered _ (.error fault), _, [] => some (.error fault)
  | _, _, _ => none

/-- The steps lead from one state to another. -/
def Reaches (group : Group) (iteration : Nat) : Resolving → Resolving → Prop :=
  Relation.ReflTransGen fun one next => one.step group iteration = some next

/-- The state in which a call has returned what it came to and left everything else as it was. -/
def returned (resolving : Resolving) (slot : SlotName) :
    Except Fault (Value × SlotValues) → Resolving
  | .ok (value, known) => { resolving with known, point := .answered slot (.ok value) }
  | .error fault => resolving.fail slot fault

variable {group : Group} {iteration : Nat} {one other : Resolving}

/-- What is reached behind a first step is reached with it. -/
theorem Reaches.head {next : Resolving} (steps : one.step group iteration = some next)
    (reaches : Reaches group iteration next other) : Reaches group iteration one other :=
  Relation.ReflTransGen.head steps reaches

/-- The resolving stands still exactly where it has an outcome. -/
theorem step_eq_none_iff : one.step group iteration = none ↔ ∃ found, one.outcome? = some found := by
  obtain ⟨wanted, values, known, active, waiting, point⟩ := one
  cases point with
  | idle => cases wanted <;> simp [step, outcome?]
  | asked slot => simp [step, outcome?]
  | answered slot outcome => cases outcome <;> cases waiting <;> simp [step, back, outcome?]

/-- There is one way on, so every state on the way to an end leads to that end. -/
theorem Reaches.to_end {start final : Resolving} (here : Reaches group iteration start one)
    (there : Reaches group iteration start final) (ended : final.step group iteration = none) :
    Reaches group iteration one final := by
  have unique : Relator.RightUnique fun one next : Resolving =>
      one.step group iteration = some next :=
    fun _ _ _ left right => Option.some.inj (left.symm.trans right)
  rcases Relation.ReflTransGen.total_of_right_unique unique here there with forward | backward
  · exact forward
  · cases backward.cases_head with
    | inl same => exact same ▸ .refl
    | inr goes =>
      obtain ⟨next, steps, -⟩ := goes
      cases ended.symm.trans steps

end Resolving

namespace Group

open Resolving (Reaches)

variable {group : Group} {iteration : Nat} {slot source : SlotName} {slots : List SlotName}
  {resolving : Resolving}

/-- A new slot that leads on is put on the stack, and its source is asked for. -/
theorem ask_of_source? (new : resolving.known.lookup slot = none) (outside : slot ∉ resolving.active)
    (leads : group.source? slot = some source) :
    resolving.ask group iteration slot =
      { resolving with
        active := resolving.active ++ [slot], waiting := slot :: resolving.waiting,
        point := .asked source } := by
  rw [Resolving.ask, new, source?_eq_some_iff.mp leads]
  simp [outside]

/-- A new slot at the end of its chain is answered at once. -/
theorem ask_of_gives {outcome : Except Fault Value} (new : resolving.known.lookup slot = none)
    (outside : slot ∉ resolving.active) (gives : group.Gives iteration slot outcome) :
    resolving.ask group iteration slot =
      resolving.returned slot (outcome.map fun value => (value, (slot, value) :: resolving.known)) := by
  rw [Resolving.ask, new]
  simp only [outside, ↓reduceIte]
  cases gives with
  | constant bound => rw [bound]; rfl
  | progression bound inRange => rw [bound]; simp only [inRange]; rfl
  | overflow bound beyond => rw [bound]; simp only [beyond]; rfl
  | coordinate bound => rw [bound]; rfl
  | unknown undeclared => rw [binding?_eq_none_iff.mpr undeclared]; rfl
  | unbound bare => rw [bare]; rfl

/-- A call returns at once what its slot is pulled to, or goes on to the source of a reference that
is neither remembered nor active. -/
theorem ask_cases (group : Group) (iteration : Nat) (resolving : Resolving) (slot : SlotName) :
    resolving.ask group iteration slot =
      resolving.returned slot (group.pull iteration resolving.active resolving.known slot) ∨
    ∃ source, resolving.known.lookup slot = none ∧ slot ∉ resolving.active ∧
      group.source? slot = some source ∧
      resolving.ask group iteration slot =
        { resolving with
          active := resolving.active ++ [slot], waiting := slot :: resolving.waiting,
          point := .asked source } := by
  cases found : resolving.known.lookup slot with
  | some value =>
    left
    rw [Resolving.ask, found, pull_of_lookup found]
    rfl
  | none =>
    by_cases passed : slot ∈ resolving.active
    · left
      rw [Resolving.ask, found, pull_of_passed found passed]
      simp only [passed, ↓reduceIte]
      rfl
    · cases leads : group.source? slot with
      | none =>
        left
        obtain ⟨outcome, gives⟩ := exists_gives leads iteration
        rw [ask_of_gives found passed gives, pull_of_gives found passed gives]
      | some source => exact .inr ⟨source, rfl, passed, rfl, ask_of_source? found passed leads⟩

/-- A call for the value of a slot returns what the slot is pulled to, with everything that was
under way as it was: the stack, the calls that wait and what is still wanted. -/
theorem reaches_answered (resolving : Resolving) (slot : SlotName)
    (asked : resolving.point = .asked slot) :
    Reaches group iteration resolving
      (resolving.returned slot (group.pull iteration resolving.active resolving.known slot)) := by
  have steps : resolving.step group iteration = some (resolving.ask group iteration slot) := by
    rw [Resolving.step, asked]
  -- A call that waits for its source takes its slot out of those that are still fresh, and that
  -- number is what the recursion goes down on.
  rcases ask_cases group iteration resolving slot with settled | ⟨source, new, outside, leads, goesOn⟩
  · rw [settled] at steps
    exact .single steps
  · rw [goesOn] at steps
    refine .head steps (.trans (reaches_answered _ source rfl) (.single ?_))
    rw [pull_of_source? new outside leads]
    cases group.pull iteration (resolving.active ++ [slot]) resolving.known source with
    | ok found => simp [Resolving.step, Resolving.back, Resolving.returned, Resolving.learn]
    | error fault => simp [Resolving.step, Resolving.back, Resolving.returned, Resolving.fail]
termination_by (group.fresh resolving.active).length
decreasing_by
  exact length_fresh_append_lt (mem_slotNames_of_source? leads) outside

/-- From the point between two calls, the slots that are wanted are pulled in order, each from an
empty stack. -/
theorem reaches_outcome (group : Group) (iteration : Nat) (slots : List SlotName)
    (values : List Value) (known : SlotValues) :
    ∃ final, Reaches group iteration ⟨slots, values, known, [], [], .idle⟩ final ∧
      final.outcome? =
        some ((group.pullAll iteration slots known).map fun found => values ++ found.1) := by
  induction slots generalizing values known with
  | nil => exact ⟨_, .refl, by simp [Resolving.outcome?, pullAll]⟩
  | cons slot slots ih =>
    have called : Reaches group iteration ⟨slot :: slots, values, known, [], [], .idle⟩
        (Resolving.returned ⟨slots, values, known, [], [], .asked slot⟩ slot
          (group.pull iteration [] known slot)) :=
      .head rfl (reaches_answered _ slot rfl)
    rw [pullAll]
    cases pulled : group.pull iteration [] known slot with
    | error fault =>
      rw [pulled] at called
      exact ⟨_, called, rfl⟩
    | ok found =>
      obtain ⟨value, after⟩ := found
      rw [pulled] at called
      obtain ⟨final, reaches, outcome⟩ := ih (values ++ [value]) after
      refine ⟨final, called.trans (.head rfl reaches), ?_⟩
      rw [outcome]
      cases later : group.pullAll iteration slots after <;> simp [later]

/-- Slots in two parts are evaluated one part after the other, with what is known by then. -/
theorem pullAll_append (slots more : List SlotName) (known : SlotValues) :
    group.pullAll iteration (slots ++ more) known =
      group.pullAll iteration slots known >>= fun found =>
        (group.pullAll iteration more found.2).map fun others =>
          (found.1 ++ others.1, others.2) := by
  induction slots generalizing known with
  | nil => cases pulled : group.pullAll iteration more known <;> simp [pullAll, pulled]
  | cons slot slots ih =>
    rw [List.cons_append, pullAll, pullAll]
    cases group.pull iteration [] known slot with
    | error fault => rfl
    | ok found =>
      simp only [ok_bind, ih]
      cases group.pullAll iteration slots found.2 with
      | error fault => rfl
      | ok values => cases later : group.pullAll iteration more values.2 <;> simp [later]

/-- Evaluating is pulling a single slot. -/
theorem pullAll_singleton (group : Group) (iteration : Nat) (slot : SlotName) :
    (group.pullAll iteration [slot] []).map (·.1) =
      (group.evaluate slot iteration).map fun value => [value] := by
  rw [evaluate, pullAll]
  cases group.pull iteration [] [] slot <;> simp [pullAll]

/-- Resolving commands is pulling the slots of the enabled ones. -/
theorem pullAll_slots (commands : List (CommandIndex × Command)) (known : SlotValues) :
    (group.pullAll iteration
      ((commands.filter fun entry => entry.2.enabled).flatMap fun entry => slotsOf entry.1 entry.2)
      known).map (·.1) =
      (group.resolveCommands iteration commands known).map fun resolved =>
        resolved.flatMap (·.arguments) := by
  induction commands generalizing known with
  | nil => rfl
  | cons entry commands ih =>
    obtain ⟨index, command⟩ := entry
    cases enabled : command.enabled with
    | false => simpa [resolveCommands, enabled] using ih known
    | true =>
      simp only [resolveCommands, enabled, ↓reduceIte, List.filter_cons_of_pos, List.flatMap_cons,
        pullAll_append]
      cases group.pullAll iteration (slotsOf index command) known with
      | error fault => rfl
      | ok found =>
        simp only [ok_bind]
        generalize ((commands.filter fun entry => entry.2.enabled).flatMap fun entry =>
          slotsOf entry.1 entry.2) = slots at ih ⊢
        calc ((group.pullAll iteration slots found.2).map fun others =>
                (found.1 ++ others.1, others.2)).map (·.1)
          _ = ((group.pullAll iteration slots found.2).map (·.1)).map (found.1 ++ ·) := by
            cases group.pullAll iteration slots found.2 <;> rfl
          _ = ((group.resolveCommands iteration commands found.2).map fun resolved =>
                resolved.flatMap (·.arguments)).map (found.1 ++ ·) := by
            rw [ih]
          _ = _ := by
            cases group.resolveCommands iteration commands found.2 <;> rfl

end Group

end TimedCommands
