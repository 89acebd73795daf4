import TimedCommands.Directive.Basic
import TimedCommands.Log
import TimedCommands.Registry
import TimedCommands.Schedule.Sequence

/-!
# Firing directives

Firing carries out a directive on what a run has built so far. All checks come before
any change, and a failed firing answers with the fault alone, so it changes nothing;
in particular a lattice binds all of its axes or none. Nothing is assumed of the
directive: one that was never validated fails here if a number in it is out of range.
-/

namespace TimedCommands

/-- What a run has built so far: its groups, and its sequences in the order in which they
were started. -/
structure RunState where
  registry : Registry
  sequences : List ScheduledSequence
  deriving Repr, DecidableEq

/-- Nothing has been built. -/
def RunState.empty : RunState := ⟨Registry.empty, []⟩

/-- What a fired directive did to its group. -/
inductive Effect where
  | groupCreated
  | commandAdded (command : CommandIndex) (typeName : String)
  | slotBound (slot : SlotName)
  | referenceBound (slot source : SlotName)
  | axisBound (slot : SlotName) (axis : Axis)
  | commandToggled (command : CommandIndex) (enabled : Bool)
  | commandsToggled (count : Nat)
  | commandSwitched (command : CommandIndex) (enabled : Bool)
  | commandsSwitched (count : Nat) (enabled : Bool)
  | sequenceScheduled (total period : Nat) (start : Time)
  deriving Repr, DecidableEq

namespace Effect

/-- The message under which an effect is logged. -/
def message : Effect → String
  | groupCreated => "group created"
  | commandAdded _ _ => "command added"
  | slotBound _ => "placeholder bound"
  | referenceBound _ _ => "placeholder bound"
  | axisBound _ _ => "placeholder bound"
  | commandToggled _ _ => "command toggled"
  | commandsToggled _ => "commands toggled"
  | commandSwitched _ _ => "command enabled flag set"
  | commandsSwitched _ _ => "command enabled flags set"
  | sequenceScheduled _ _ _ => "sequence scheduled"

/-- The log fields of a slot. -/
def slotFields (slot : SlotName) : List (String × String) :=
  [("command", slot.command.text), ("placeholder", slot.placeholder)]

/-- The log fields of an effect behind its keyword and group. -/
def fields : Effect → List (String × String)
  | groupCreated => []
  | commandAdded command typeName => [("command", command.text), ("command_type", typeName)]
  | slotBound slot => slotFields slot
  | referenceBound slot source => slotFields slot ++ [("source", source.text)]
  | axisBound slot axis => slotFields slot ++ [("axis", axis.name)]
  | commandToggled command enabled => [("command", command.text), ("enabled", toString enabled)]
  | commandsToggled count => [("commands", toString count)]
  | commandSwitched command enabled => [("command", command.text), ("enabled", toString enabled)]
  | commandsSwitched count enabled =>
    [("commands", toString count), ("enabled", toString enabled)]
  | sequenceScheduled total period start =>
    [("total", toString total), ("period", toString period), ("start", toString start.toNat)]

/-- The log record of an effect of a directive. -/
def record (directive : Directive) (effect : Effect) : LogRecord :=
  ⟨.info, effect.message,
    ("directive", directive.action.keyword.text) :: ("group", directive.group) :: effect.fields⟩

end Effect

namespace RunState

/-- A command index in range. -/
def checkIndex (raw : Int64) : Except Fault CommandIndex :=
  match CommandIndex.ofRaw? raw with
  | some index => .ok index
  | none => .error (.invalidCommandIndex raw)

/-- A slot whose command index is in range. -/
def checkSlot (slot : RawSlot) : Except Fault SlotName := do
  let command ← checkIndex slot.command
  return ⟨command, slot.placeholder⟩

/-- A repetition count in range. -/
def checkTotal (raw : Int64) : Except Fault Nat :=
  if 1 ≤ raw.toInt ∧ raw.toInt ≤ maxCount then .ok raw.toInt.toNat
  else .error (.invalidRepetitionCount raw)

/-- A period that is not negative. -/
def checkPeriod (raw : Int64) : Except Fault Nat :=
  if 0 ≤ raw.toInt then .ok raw.toInt.toNat else .error (.invalidPeriod raw)

/-- A progression between two bounds. -/
def checkBounds (initial increment : Value) : Except Fault Progression :=
  match Progression.ofValues? initial increment with
  | some rule => .ok rule
  | none => .error (.invalidSequence initial increment)

/-- One binding per axis of a lattice. -/
def checkLattice (rank : Rank) (spec : LatticeSpec) : Except Fault (List LatticeSpec.AxisBinding) := do
  spec.targets.forM fun target => do
    let _ ← checkIndex target.command
  match spec.axisBindings? rank with
  | some bindings => return bindings
  | none => throw (.invalidLattice rank)

/-- Every slot is declared in a group. -/
def checkDeclared (group : Group) (slots : List SlotName) : Except Fault Unit :=
  match slots.find? fun slot => !group.declares slot with
  | some slot => .error (.unknownSlot slot)
  | none => .ok ()

/-- Puts a changed group in the place of the one of its name. -/
def replace (state : RunState) (group : Group) : RunState :=
  { state with registry := state.registry.replace group }

/-- Binds a slot of a group. -/
def bindSlot (state : RunState) (name : GroupName) (slot : SlotName) (binding : Binding) :
    Except Fault RunState := do
  let group ← state.registry.get name
  let bound ← group.bind slot binding
  return state.replace bound

/-- Binds every axis of a lattice. -/
def bindLattice (state : RunState) (name : GroupName) (rank : Rank) (spec : LatticeSpec) :
    Except Fault (RunState × List Effect) := do
  let bindings ← checkLattice rank spec
  let group ← state.registry.get name
  checkDeclared group (bindings.map (·.slot))
  let bound ← bindings.foldlM (fun group binding =>
    group.bind binding.slot (.coordinate binding.coordinate)) group
  return (state.replace bound,
    bindings.map fun binding => .axisBound binding.slot binding.coordinate.axis)

/-- Carries out a directive at its time. -/
def fire (arity : ArityLookup) (state : RunState) (directive : Directive) :
    Except Fault (RunState × List Effect) :=
  let name := directive.group
  match directive.action with
  | .createGroup => do
    let registry ← state.registry.create name
    return ({ state with registry }, [.groupCreated])
  | .addCommand typeName placeholders => do
    let group ← state.registry.get name
    let (extended, index) ← group.add arity typeName placeholders
    return (state.replace extended, [.commandAdded index typeName])
  | .bindConstant target value => do
    let slot ← checkSlot target
    let bound ← state.bindSlot name slot (.constant value)
    return (bound, [.slotBound slot])
  | .bindSequence target initial increment => do
    let slot ← checkSlot target
    let rule ← checkBounds initial increment
    let bound ← state.bindSlot name slot (.progression rule)
    return (bound, [.slotBound slot])
  | .bindArgument target source => do
    let slot ← checkSlot target
    let origin ← checkSlot source
    let bound ← state.bindSlot name slot (.reference origin)
    return (bound, [.referenceBound slot origin])
  | .bindLattice rank spec => state.bindLattice name rank spec
  | .toggleCommand command => do
    let index ← checkIndex command
    let group ← state.registry.get name
    let (toggled, enabled) ← group.toggle index
    return (state.replace toggled, [.commandToggled index enabled])
  | .toggleAll => do
    let group ← state.registry.get name
    return (state.replace group.toggleAll, [.commandsToggled group.commands.length])
  | .switchCommand enabled command => do
    let index ← checkIndex command
    let group ← state.registry.get name
    let switched ← group.setEnabled index enabled
    return (state.replace switched, [.commandSwitched index enabled])
  | .switchAll enabled => do
    let group ← state.registry.get name
    return (state.replace (group.setAllEnabled enabled),
      [.commandsSwitched group.commands.length enabled])
  | .executeSequence total period => do
    let _ ← state.registry.get name
    let repetitions ← checkTotal total
    let spacing ← checkPeriod period
    let sequence := ScheduledSequence.begin name repetitions spacing directive.time
    return ({ state with sequences := state.sequences ++ [sequence] },
      [.sequenceScheduled repetitions spacing directive.time])

end RunState

end TimedCommands
