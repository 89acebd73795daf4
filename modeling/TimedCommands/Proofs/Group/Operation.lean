import TimedCommands.Proofs.Directive.Range
import TimedCommands.Proofs.Group.Binding

/-!
# Operations on a group

Everything that can be asked of a group, as data, so that a group can be followed through any list
of operations. What an operation does is said once: `Group.Performed` has one case for each that
succeeds and one for all that fail, and `Group.performed` says that there is no other. A group
keeps a history of what its operations came to, the failing ones included.
-/

namespace TimedCommands

/-- What can be asked of a group. -/
inductive GroupOperation where
  | add (typeName : String) (placeholders : List Placeholder)
  | bind (slot : SlotName) (binding : Binding)
  | setEnabled (index : CommandIndex) (enabled : Bool)
  | toggle (index : CommandIndex)
  | setAllEnabled (enabled : Bool)
  | toggleAll
  deriving Repr, DecidableEq

/-- What an operation answers if it succeeds. -/
inductive Answer where
  | done
  | added (index : CommandIndex)
  | toggled (enabled : Bool)
  deriving Repr, DecidableEq

/-- An operation on a group, and what it came to. -/
structure GroupEvent where
  operation : GroupOperation
  outcome : Except Fault Answer

/-- Binding a placeholder leaves the placeholders of a command as they are. -/
theorem Command.placeholders_bind (command : Command) (placeholder : Placeholder)
    (binding : Binding) :
    (command.bind placeholder binding).placeholders = command.placeholders := by
  rw [bind, placeholders, placeholders, List.map_map]
  refine List.map_congr_left fun slot _ => ?_
  by_cases same : slot.placeholder = placeholder <;> simp [same]

namespace Group

variable {arity : ArityLookup} {group : Group} {operation : GroupOperation}

/-- Carries out an operation. -/
def perform (arity : ArityLookup) (group : Group) :
    GroupOperation → Except Fault (Group × Answer)
  | .add typeName placeholders => do
    let (extended, index) ← group.add arity typeName placeholders
    return (extended, .added index)
  | .bind slot binding => do
    let bound ← group.bind slot binding
    return (bound, .done)
  | .setEnabled index enabled => do
    let switched ← group.setEnabled index enabled
    return (switched, .done)
  | .toggle index => do
    let (toggled, enabled) ← group.toggle index
    return (toggled, .toggled enabled)
  | .setAllEnabled enabled => return (group.setAllEnabled enabled, .done)
  | .toggleAll => return (group.toggleAll, .done)

/-- The group after an operation. One that fails changes nothing. -/
def settle (arity : ArityLookup) (group : Group) (operation : GroupOperation) : Group :=
  match group.perform arity operation with
  | .ok (changed, _) => changed
  | .error _ => group

/-- An operation with what it comes to. -/
def event (arity : ArityLookup) (group : Group) (operation : GroupOperation) : GroupEvent :=
  ⟨operation, (group.perform arity operation).map (·.2)⟩

/-- The group after operations. -/
def after (arity : ArityLookup) (group : Group) (operations : List GroupOperation) : Group :=
  operations.foldl (settle arity) group

/-- Operations with what they come to, one after the other. -/
def history (arity : ArityLookup) : Group → List GroupOperation → List GroupEvent
  | _, [] => []
  | group, operation :: rest =>
    group.event arity operation :: (group.settle arity operation).history arity rest

/-- An event is that of its operation. -/
@[simp] theorem operation_event (arity : ArityLookup) (group : Group)
    (operation : GroupOperation) : (group.event arity operation).operation = operation := rfl

/-- Operations may be carried out in two parts. -/
theorem after_append (group : Group) (first second : List GroupOperation) :
    group.after arity (first ++ second) = (group.after arity first).after arity second :=
  List.foldl_append

/-- The last operation is carried out behind the others. -/
theorem after_concat (group : Group) (operations : List GroupOperation)
    (operation : GroupOperation) :
    group.after arity (operations ++ [operation]) =
      (group.after arity operations).settle arity operation := by
  rw [after_append]
  rfl

/-- The history of operations in two parts is that of both. -/
theorem history_append (group : Group) (first second : List GroupOperation) :
    group.history arity (first ++ second) =
      group.history arity first ++ (group.after arity first).history arity second := by
  induction first generalizing group with
  | nil => rfl
  | cons operation rest ih =>
    rw [List.cons_append, history, ih, history]
    rfl

/-- The last event is that of the last operation, behind the others. -/
theorem history_concat (group : Group) (operations : List GroupOperation)
    (operation : GroupOperation) :
    group.history arity (operations ++ [operation]) =
      group.history arity operations ++ [(group.after arity operations).event arity operation] :=
  history_append ..

/-- A history leaves no operation out. -/
theorem operations_history (group : Group) (operations : List GroupOperation) :
    (group.history arity operations).map (·.operation) = operations := by
  induction operations generalizing group with
  | nil => rfl
  | cons operation rest ih => exact congrArg (operation :: ·) (ih _)

/-- A group with a further command behind all others. -/
def extend (group : Group) (typeName : String) (placeholders : List Placeholder) : Group :=
  { group with commands := group.commands ++ [.ofPlaceholders typeName placeholders] }

/-- A group lets an operation succeed. -/
def Accepts (arity : ArityLookup) (group : Group) : GroupOperation → Prop
  | .add typeName placeholders => arity typeName = some placeholders.length ∧ placeholders.Nodup
  | .bind slot _ => group.declares slot
  | .setEnabled index _ => (group.command? index).isSome
  | .toggle index => (group.command? index).isSome
  | .setAllEnabled _ => True
  | .toggleAll => True

/-- What an operation on a group does: what it comes to, and the group it leaves. -/
inductive Performed (arity : ArityLookup) (group : Group) :
    GroupOperation → Except Fault Answer → Group → Prop where
  | added {typeName : String} {placeholders : List Placeholder}
      (counted : arity typeName = some placeholders.length) (distinct : placeholders.Nodup) :
      Performed arity group (.add typeName placeholders)
        (.ok (.added ⟨group.commands.length⟩)) (group.extend typeName placeholders)
  | bound {slot : SlotName} (declared : group.declares slot) (binding : Binding) :
      Performed arity group (.bind slot binding) (.ok .done) (group.rebind slot binding)
  | switched {index : CommandIndex} {command : Command}
      (found : group.command? index = some command) (enabled : Bool) :
      Performed arity group (.setEnabled index enabled) (.ok .done)
        (group.modify index fun command => { command with enabled })
  | toggled {index : CommandIndex} {command : Command}
      (found : group.command? index = some command) :
      Performed arity group (.toggle index) (.ok (.toggled !command.enabled))
        (group.modify index fun command => { command with enabled := !command.enabled })
  | allSwitched (enabled : Bool) :
      Performed arity group (.setAllEnabled enabled) (.ok .done) (group.setAllEnabled enabled)
  | allToggled : Performed arity group .toggleAll (.ok .done) group.toggleAll
  | failed {operation : GroupOperation} (rejects : ¬ group.Accepts arity operation)
      (fault : Fault) : Performed arity group operation (.error fault) group

/-- A command is added exactly if its type is known, with as many placeholders, and these are
distinct. -/
theorem add_eq_ok_iff {typeName : String} {placeholders : List Placeholder}
    {result : Group × CommandIndex} :
    group.add arity typeName placeholders = .ok result ↔
      arity typeName = some placeholders.length ∧ placeholders.Nodup ∧
        result = (group.extend typeName placeholders, ⟨group.commands.length⟩) := by
  rw [add]
  cases known : arity typeName with
  | none => simp
  | some expected =>
    by_cases counted : placeholders.length = expected
    · subst counted
      cases repeated : firstRepeated? [] placeholders with
      | none =>
        have distinct : placeholders.Nodup := (firstRepeated?_eq_none_iff.mp repeated).1
        simp [distinct, extend, eq_comm]
      | some placeholder =>
        have notDistinct : ¬ placeholders.Nodup := by
          intro distinct
          have none : firstRepeated? [] placeholders = none :=
            firstRepeated?_eq_none_iff.mpr ⟨distinct, fun _ _ => List.not_mem_nil⟩
          simp [none] at repeated
        simp [notDistinct]
    · have different : expected ≠ placeholders.length := fun same => counted same.symm
      simp [counted, different]

/-- An operation that a group accepts does not fail. -/
theorem exists_perform_of_accepts (accepts : group.Accepts arity operation) :
    ∃ result, group.perform arity operation = .ok result := by
  cases operation with
  | add typeName placeholders =>
    obtain ⟨counted, distinct⟩ := accepts
    exact ⟨_, bind_eq_ok_iff.mpr ⟨_, add_eq_ok_iff.mpr ⟨counted, distinct, rfl⟩, rfl⟩⟩
  | bind slot binding =>
    exact ⟨_, bind_eq_ok_iff.mpr ⟨_, bind_of_declares accepts binding, rfl⟩⟩
  | setEnabled index enabled =>
    obtain ⟨command, found⟩ := Option.isSome_iff_exists.mp accepts
    exact ⟨_, bind_eq_ok_iff.mpr ⟨_, by rw [setEnabled, found], rfl⟩⟩
  | toggle index =>
    obtain ⟨command, found⟩ := Option.isSome_iff_exists.mp accepts
    exact ⟨_, bind_eq_ok_iff.mpr ⟨_, by rw [toggle, found], rfl⟩⟩
  | setAllEnabled enabled => exact ⟨_, rfl⟩
  | toggleAll => exact ⟨_, rfl⟩

/-- An operation does what `Performed` says. -/
theorem performed (arity : ArityLookup) (group : Group) (operation : GroupOperation) :
    Performed arity group operation (group.event arity operation).outcome
      (group.settle arity operation) := by
  rw [event, settle]
  cases result : group.perform arity operation with
  | error fault =>
    refine .failed (fun accepts => ?_) fault
    obtain ⟨other, succeeds⟩ := exists_perform_of_accepts accepts
    cases result.symm.trans succeeds
  | ok pair =>
    obtain ⟨changed, answer⟩ := pair
    cases operation with
    | add typeName placeholders =>
      obtain ⟨⟨extended, index⟩, added, rest⟩ := bind_eq_ok_iff.mp result
      cases rest
      obtain ⟨counted, distinct, same⟩ := add_eq_ok_iff.mp added
      cases same
      exact .added counted distinct
    | bind slot binding =>
      obtain ⟨bound, isBound, rest⟩ := bind_eq_ok_iff.mp result
      cases rest
      rw [bind] at isBound
      split at isBound
      next declared =>
        cases isBound
        exact .bound declared binding
      next => cases isBound
    | setEnabled index enabled =>
      obtain ⟨switched, isSwitched, rest⟩ := bind_eq_ok_iff.mp result
      cases rest
      rw [setEnabled] at isSwitched
      split at isSwitched
      next => cases isSwitched
      next command found =>
        cases isSwitched
        exact .switched found enabled
    | toggle index =>
      obtain ⟨⟨toggled, enabled⟩, isToggled, rest⟩ := bind_eq_ok_iff.mp result
      cases rest
      rw [toggle] at isToggled
      split at isToggled
      next => cases isToggled
      next command found =>
        cases isToggled
        exact .toggled found
    | setAllEnabled enabled =>
      cases result
      exact .allSwitched enabled
    | toggleAll =>
      cases result
      exact .allToggled

/-! What the types and placeholders of the commands are. -/

/-- The type and the placeholders of each command. -/
def outline (group : Group) : List (String × List Placeholder) :=
  group.commands.map fun command => (command.typeName, command.placeholders)

/-- A command that is added stands at the end of the outline. -/
@[simp] theorem outline_extend (group : Group) (typeName : String)
    (placeholders : List Placeholder) :
    (group.extend typeName placeholders).outline = group.outline ++ [(typeName, placeholders)] := by
  simp [outline, extend, Command.ofPlaceholders, Command.placeholders, Function.comp_def]

/-- A change that keeps type and placeholders leaves the outline as it is. -/
theorem outline_modify (group : Group) (index : CommandIndex) {change : Command → Command}
    (keeps : ∀ command, (change command).typeName = command.typeName ∧
      (change command).placeholders = command.placeholders) :
    (group.modify index change).outline = group.outline := by
  apply List.ext_getElem?
  intro position
  simp only [outline, modify, List.getElem?_map, List.getElem?_modify]
  cases group.commands[position]? with
  | none => simp
  | some command => by_cases same : index.position = position <;> simp [same, keeps command]

/-- Whether a command stands at an index is told by the outline. -/
theorem command?_isSome (group : Group) (index : CommandIndex) :
    (group.command? index).isSome = decide (index.position < group.outline.length) := by
  rw [Bool.eq_iff_iff]
  simp [command?, outline]

/-- The outline of a group says which slots it declares. -/
theorem declares_iff (group : Group) (slot : SlotName) :
    group.declares slot ↔
      ∃ entry, group.outline[slot.command.position]? = some entry ∧ slot.placeholder ∈ entry.2 := by
  simp only [declares, command?, outline, List.getElem?_map, Option.map_eq_some_iff]
  cases group.commands[slot.command.position]? with
  | none => simp
  | some command => simp [Command.slot?, Command.placeholders]

/-- Groups of one outline accept the same operations. -/
theorem accepts_congr {other : Group} (same : group.outline = other.outline)
    (operation : GroupOperation) :
    group.Accepts arity operation ↔ other.Accepts arity operation := by
  cases operation with
  | add => exact Iff.rfl
  | bind slot => simp only [Accepts, declares_iff, same]
  | setEnabled index => simp only [Accepts, command?_isSome, same]
  | toggle index => simp only [Accepts, command?_isSome, same]
  | setAllEnabled => exact Iff.rfl
  | toggleAll => exact Iff.rfl

end Group

end TimedCommands
