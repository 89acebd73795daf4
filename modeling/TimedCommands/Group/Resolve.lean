import TimedCommands.Group.Basic

/-!
# Resolving a group

Resolving evaluates every slot of every enabled command for one repetition. Values
are remembered per slot, and a reference is followed with the chain of slots that
led to it, so a reference back into that chain is reported as a cycle.

Every followed reference adds a declared slot to the chain that was not in it
before. The declared slots outside the chain therefore bound the depth, whatever the
references are, and evaluation ends without any limit of its own.
-/

namespace TimedCommands

/-- A command with the values of all its slots, in argument order. -/
structure ResolvedCommand where
  index : CommandIndex
  typeName : String
  arguments : List Value
  deriving Repr, DecidableEq

/-- The values that one repetition has already found. -/
abbrev SlotValues := List (SlotName × Value)

namespace Group

/-- The binding of a slot: `none` if it is not declared, `some none` if it is not bound. -/
def binding? (group : Group) (slot : SlotName) : Option (Option Binding) := do
  let command ← group.command? slot.command
  let declared ← command.slot? slot.placeholder
  return declared.binding

/-- The declared slots, in command order and then argument order. -/
def slotNames (group : Group) : List SlotName :=
  group.indexed.flatMap fun (index, command) =>
    command.placeholders.map fun placeholder => ⟨index, placeholder⟩

/-- A slot that has a binding entry is a declared one. -/
theorem mem_slotNames_of_binding? {group : Group} {slot : SlotName} {binding : Option Binding}
    (found : group.binding? slot = some binding) : slot ∈ group.slotNames := by
  obtain ⟨⟨position⟩, placeholder⟩ := slot
  simp only [binding?, command?, Command.slot?, Option.bind_eq_bind, Option.bind_eq_some_iff] at found
  obtain ⟨command, hasCommand, declared, hasSlot, -⟩ := found
  have memSlot := List.mem_of_find?_eq_some hasSlot
  have samePlaceholder := List.find?_some hasSlot
  simp only [slotNames, indexed, Command.placeholders, List.mem_flatMap, List.mem_map]
  refine ⟨(⟨position⟩, command), ⟨(command, position), ?_, rfl⟩, placeholder, ⟨declared, memSlot, ?_⟩, rfl⟩
  · exact List.mk_mem_zipIdx_iff_getElem?.mpr hasCommand
  · simpa using samePlaceholder

/-- The declared slots that a chain has not passed. -/
def fresh (group : Group) (chain : List SlotName) : List SlotName :=
  group.slotNames.filter fun slot => slot ∉ chain

/-- A declared slot outside the chain leaves fewer fresh slots when the chain passes it. -/
theorem length_fresh_append_lt {group : Group} {chain : List SlotName} {slot : SlotName}
    (declared : slot ∈ group.slotNames) (outside : slot ∉ chain) :
    (group.fresh (chain ++ [slot])).length < (group.fresh chain).length := by
  have narrower : group.fresh (chain ++ [slot]) =
      (group.fresh chain).filter fun other => other ≠ slot := by
    simp [fresh, List.filter_filter, and_comm]
  rw [narrower]
  refine List.length_filter_lt_length_iff_exists.mpr ⟨slot, ?_, by simp⟩
  simp [fresh, declared, outside]

/-- The closed chain that a reference back to `slot` makes. -/
def cyclePath (chain : List SlotName) (slot : SlotName) : List SlotName :=
  chain.dropWhile (· ≠ slot) ++ [slot]

/-- The value of one slot at a repetition, with what is known afterwards. The chain holds
the slots whose references led here, the oldest first. -/
def pull (group : Group) (iteration : Nat) (chain : List SlotName) (known : SlotValues)
    (slot : SlotName) : Except Fault (Value × SlotValues) :=
  match known.lookup slot with
  | some value => .ok (value, known)
  | none =>
    if _passed : slot ∈ chain then .error (.cyclicReference (cyclePath chain slot))
    else match _found : group.binding? slot with
      | none => .error (.unknownSlot slot)
      | some none => .error (.unboundSlot slot)
      | some (some (.constant value)) => .ok (value, (slot, value) :: known)
      | some (some (.progression rule)) =>
        match rule.value? iteration with
        | none => .error (.sequenceOverflow slot iteration)
        | some value => .ok (value, (slot, value) :: known)
      | some (some (.coordinate axis)) =>
        let value := Value.real (axis.value iteration)
        .ok (value, (slot, value) :: known)
      | some (some (.reference source)) =>
        match group.pull iteration (chain ++ [slot]) known source with
        | .error fault => .error fault
        | .ok (value, known) => .ok (value, (slot, value) :: known)
termination_by (group.fresh chain).length
decreasing_by exact length_fresh_append_lt (mem_slotNames_of_binding? _found) _passed

/-- The value of a single slot at a repetition. -/
def evaluate (group : Group) (slot : SlotName) (iteration : Nat) : Except Fault Value :=
  (group.pull iteration [] [] slot).map (·.1)

/-- The values of slots in order, remembering each for the next. -/
def pullAll (group : Group) (iteration : Nat) :
    List SlotName → SlotValues → Except Fault (List Value × SlotValues)
  | [], known => .ok ([], known)
  | slot :: rest, known => do
    let (value, known) ← group.pull iteration [] known slot
    let (values, known) ← group.pullAll iteration rest known
    return (value :: values, known)

/-- The slots of a command, in argument order. -/
def slotsOf (index : CommandIndex) (command : Command) : List SlotName :=
  command.placeholders.map fun placeholder => ⟨index, placeholder⟩

/-- Resolves commands in order, leaving out disabled ones. -/
def resolveCommands (group : Group) (iteration : Nat) :
    List (CommandIndex × Command) → SlotValues → Except Fault (List ResolvedCommand)
  | [], _ => .ok []
  | (index, command) :: rest, known =>
    if command.enabled then do
      let (arguments, known) ← group.pullAll iteration (slotsOf index command) known
      let resolved ← group.resolveCommands iteration rest known
      return ⟨index, command.typeName, arguments⟩ :: resolved
    else group.resolveCommands iteration rest known

/-- The enabled commands of one repetition, in index order. A disabled command is left out
but can still be the source of a reference. -/
def resolve (group : Group) (iteration : Nat) : Except Fault (List ResolvedCommand) :=
  group.resolveCommands iteration group.indexed []

end Group

end TimedCommands
