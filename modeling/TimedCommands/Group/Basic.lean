import TimedCommands.CommandTypes
import TimedCommands.Fault

/-!
# Command groups

A group is an append-only list of commands. A command names its type and declares
argument slots by placeholder; each slot carries its own binding, so a binding can
never belong to a placeholder that was not declared. References between slots are
plain names, looked up only when the group resolves, and may be made before the
command that they point at exists.

Every operation that can fail answers with a `Fault` instead of a group, so a failed
operation leaves nothing behind.
-/

namespace TimedCommands

/-- An argument slot: its placeholder, and its binding once it has one. -/
structure Slot where
  placeholder : Placeholder
  binding : Option Binding
  deriving Repr, DecidableEq

/-- A command of a group: a type with named argument slots, in argument order. -/
structure Command where
  typeName : String
  slots : List Slot
  enabled : Bool
  deriving Repr, DecidableEq

namespace Command

/-- A new command: nothing is bound yet, and it is enabled. -/
def ofPlaceholders (typeName : String) (placeholders : List Placeholder) : Command where
  typeName
  slots := placeholders.map fun placeholder => ⟨placeholder, none⟩
  enabled := true

/-- The placeholders in argument order. -/
def placeholders (command : Command) : List Placeholder := command.slots.map (·.placeholder)

/-- Finds a slot by its placeholder. -/
def slot? (command : Command) (placeholder : Placeholder) : Option Slot :=
  command.slots.find? fun slot => slot.placeholder = placeholder

/-- Binds every slot of a placeholder, replacing earlier bindings. -/
def bind (command : Command) (placeholder : Placeholder) (binding : Binding) : Command :=
  { command with
    slots := command.slots.map fun slot =>
      if slot.placeholder = placeholder then { slot with binding := some binding } else slot }

/-- The placeholders that still lack a binding, in argument order. -/
def unbound (command : Command) : List Placeholder :=
  (command.slots.filter fun slot => slot.binding.isNone).map (·.placeholder)

/-- Whether every slot has a binding. -/
def isFullyBound (command : Command) : Bool := command.unbound.isEmpty

end Command

/-- A named, ordered collection of commands. -/
structure Group where
  name : GroupName
  commands : List Command
  deriving Repr, DecidableEq

/-- The first name of a list that is in `seen` or stood before in the list. -/
def firstRepeated? (seen : List String) : List String → Option String
  | [] => none
  | name :: rest => if name ∈ seen then some name else firstRepeated? (name :: seen) rest

namespace Group

/-- A group without commands. -/
def empty (name : GroupName) : Group := ⟨name, []⟩

/-- The command at an index. -/
def command? (group : Group) (index : CommandIndex) : Option Command :=
  group.commands[index.position]?

/-- The commands with their indices, in index order. -/
def indexed (group : Group) : List (CommandIndex × Command) :=
  group.commands.zipIdx.map fun (command, position) => (⟨position⟩, command)

/-- Whether a command exists and declares a placeholder. -/
def declares (group : Group) (slot : SlotName) : Bool :=
  match group.command? slot.command with
  | none => false
  | some command => (command.slot? slot.placeholder).isSome

/-- Appends a command. The number of placeholders must be the arity of its type, and no
placeholder may be declared twice. -/
def add (group : Group) (arity : ArityLookup) (typeName : String)
    (placeholders : List Placeholder) : Except Fault (Group × CommandIndex) :=
  match arity typeName with
  | none => .error (.unknownCommandType typeName)
  | some expected =>
    if placeholders.length ≠ expected then
      .error (.arityMismatch typeName expected placeholders.length)
    else match firstRepeated? [] placeholders with
      | some placeholder => .error (.duplicatePlaceholder placeholder)
      | none =>
        let command := Command.ofPlaceholders typeName placeholders
        .ok ({ group with commands := group.commands ++ [command] }, ⟨group.commands.length⟩)

/-- Changes the command at an index. -/
def modify (group : Group) (index : CommandIndex) (change : Command → Command) : Group :=
  { group with commands := group.commands.modify index.position change }

/-- Binds a declared slot, replacing any earlier binding. -/
def bind (group : Group) (slot : SlotName) (binding : Binding) : Except Fault Group :=
  if group.declares slot then
    .ok (group.modify slot.command fun command => command.bind slot.placeholder binding)
  else .error (.unknownSlot slot)

/-- Sets the enabled flag of one command. -/
def setEnabled (group : Group) (index : CommandIndex) (enabled : Bool) : Except Fault Group :=
  match group.command? index with
  | none => .error (.commandNotFound index)
  | some _ => .ok (group.modify index fun command => { command with enabled })

/-- Flips the enabled flag of one command and answers its new state. -/
def toggle (group : Group) (index : CommandIndex) : Except Fault (Group × Bool) :=
  match group.command? index with
  | none => .error (.commandNotFound index)
  | some command =>
    .ok (group.modify index fun command => { command with enabled := !command.enabled },
      !command.enabled)

/-- Sets every enabled flag. -/
def setAllEnabled (group : Group) (enabled : Bool) : Group :=
  { group with commands := group.commands.map fun command => { command with enabled } }

/-- Flips every enabled flag. -/
def toggleAll (group : Group) : Group :=
  { group with
    commands := group.commands.map fun command => { command with enabled := !command.enabled } }

end Group

end TimedCommands
