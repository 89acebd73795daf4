import Mathlib.Data.List.DropRight
import TimedCommands.Proofs.Group.Operation

/-!
# A group follows its history

What a group has become can be read off the history of its operations, without the group. A slot
has the binding of the last event that binds it. A command is enabled as the last event since it
was added says that sets its flag, and the other way round if an odd number of later ones flip it.
Events that fail, and those that are about another slot or command, are not looked at
(`state_follows_history`).
-/

namespace TimedCommands

namespace GroupOperation

/-- The binding that an operation gives to a slot, if it does. -/
def binding? (slot : SlotName) : GroupOperation → Option Binding
  | .bind target binding => if target = slot then some binding else none
  | _ => none

/-- The value to which an operation sets the enabled flag of a command, if it does. -/
def setting? (index : CommandIndex) : GroupOperation → Option Bool
  | .setEnabled target enabled => if target = index then some enabled else none
  | .setAllEnabled enabled => some enabled
  | _ => none

/-- Whether an operation flips the enabled flag of a command. -/
def flips (index : CommandIndex) : GroupOperation → Bool
  | .toggle target => target = index
  | .toggleAll => true
  | _ => false

/-- The type and the placeholders of the command that an operation adds, if it adds one. -/
def addition? : GroupOperation → Option (String × List Placeholder)
  | .add typeName placeholders => some (typeName, placeholders)
  | _ => none

variable {index : CommandIndex} {operations : List GroupOperation} {operation : GroupOperation}

/-- The operations behind the last that sets the flag of a command, or all if there is none. -/
def sinceSet (index : CommandIndex) (operations : List GroupOperation) : List GroupOperation :=
  operations.rtakeWhile fun operation => (operation.setting? index).isNone

/-- The flag of a command, from the operations since it was added: the value of the last that sets
it, flipped once for each of the later ones that flips it. New commands are enabled. -/
def flag (index : CommandIndex) (operations : List GroupOperation) : Bool :=
  let value := (operations.filterMap (setting? index)).getLast?.getD true
  value ^^ (((sinceSet index operations).countP (flips index)) % 2 = 1 : Bool)

/-- An operation that sets the flag leaves it at the value it sets. -/
theorem flag_concat_of_setting? {value : Bool} (sets : operation.setting? index = some value) :
    flag index (operations ++ [operation]) = value := by
  have behind : sinceSet index (operations ++ [operation]) = [] := by
    rw [sinceSet, List.rtakeWhile_concat_neg]
    simp [sets]
  simp [flag, behind, sets]

/-- An operation that does not set the flag flips it, or leaves it. -/
theorem flag_concat (keeps : operation.setting? index = none) :
    flag index (operations ++ [operation]) = (flag index operations ^^ operation.flips index) := by
  have behind : sinceSet index (operations ++ [operation]) =
      sinceSet index operations ++ [operation] := by
    rw [sinceSet, List.rtakeWhile_concat_pos]
    · rfl
    · simp [keeps]
  have same : (operations ++ [operation]).filterMap (setting? index) =
      operations.filterMap (setting? index) := by
    simp [keeps]
  rw [flag, flag, behind, same, List.countP_append]
  generalize (sinceSet index operations).countP (flips index) = count
  by_cases flips : operation.flips index
  · have odd : ((count + 1) % 2 = 1 : Bool) = !(count % 2 = 1 : Bool) := by
      rw [← decide_not, decide_eq_decide]
      omega
    simp [flips, odd]
  · simp [flips]

example : flag ⟨0⟩
    [.toggle ⟨0⟩, .setEnabled ⟨0⟩ false, .toggleAll, .toggle ⟨1⟩, .setEnabled ⟨1⟩ false] = true := by
  decide

end GroupOperation

namespace GroupEvent

/-- Whether the operation has succeeded. -/
def succeeds (event : GroupEvent) : Bool := event.outcome.isOk

/-- The operations that have succeeded, in order. -/
def successes (events : List GroupEvent) : List GroupOperation :=
  (events.filter succeeds).map (·.operation)

/-- Whether an event adds the command of an index. -/
def adds (index : CommandIndex) (event : GroupEvent) : Bool :=
  match event.outcome with
  | .ok (.added added) => added = index
  | _ => false

/-- The events since the command of an index was added, if it was. -/
def sinceAdded? (index : CommandIndex) (events : List GroupEvent) : Option (List GroupEvent) :=
  match events.dropWhile fun event => !event.adds index with
  | [] => none
  | _ :: since => some since

/-- The last event adds its operation to the successes, if it is one. -/
theorem successes_concat (events : List GroupEvent) (event : GroupEvent) :
    successes (events ++ [event]) =
      if event.succeeds then successes events ++ [event.operation] else successes events := by
  cases succeeds : event.succeeds <;> simp [successes, succeeds]

/-- The last event is one since the command was added, or the one that adds it. -/
theorem sinceAdded?_concat (index : CommandIndex) (events : List GroupEvent)
    (event : GroupEvent) :
    sinceAdded? index (events ++ [event]) =
      match sinceAdded? index events with
      | some since => some (since ++ [event])
      | none => if event.adds index then some [] else none := by
  rw [sinceAdded?, sinceAdded?, List.dropWhile_append]
  cases events.dropWhile fun event => !event.adds index with
  | nil => by_cases adds : event.adds index <;> simp [adds]
  | cons first since => simp

end GroupEvent

namespace Group

variable {arity : ArityLookup} {group : Group} {operation : GroupOperation}

/-- The binding of a slot, if it is declared and has one. -/
def bound? (group : Group) (slot : SlotName) : Option Binding := (group.binding? slot).join

/-- The enabled flag of a command, if there is one at the index. -/
def enabled? (group : Group) (index : CommandIndex) : Option Bool :=
  (group.command? index).map (·.enabled)

/-- A command that is added stands behind the others, which stay where they are. -/
theorem command?_extend (group : Group) (typeName : String) (placeholders : List Placeholder)
    (index : CommandIndex) :
    (group.extend typeName placeholders).command? index =
      if index = ⟨group.commands.length⟩ then some (.ofPlaceholders typeName placeholders)
      else group.command? index := by
  obtain ⟨position⟩ := index
  simp only [command?, extend, CommandIndex.mk.injEq]
  rcases Nat.lt_trichotomy position group.commands.length with before | rfl | behind
  · rw [List.getElem?_append_left before, if_neg (Nat.ne_of_lt before)]
  · rw [List.getElem?_concat_length, if_pos rfl]
  · rw [if_neg (Nat.ne_of_gt behind), List.getElem?_eq_none, List.getElem?_eq_none]
    · omega
    · rw [List.length_append, List.length_singleton]
      omega

/-- No command stands behind the last. -/
theorem command?_length (group : Group) : group.command? ⟨group.commands.length⟩ = none := by
  simp [command?]

/-- The bindings of a command are those of its slots. -/
theorem binding?_eq (group : Group) (slot : SlotName) :
    group.binding? slot =
      ((group.command? slot.command).map (·.slots)).bind fun slots =>
        (slots.find? (·.placeholder = slot.placeholder)).map (·.binding) := by
  rw [binding?]
  cases group.command? slot.command with
  | none => rfl
  | some command =>
    change (do let declared ← command.slot? slot.placeholder; return declared.binding) = _
    rw [Command.slot?, Option.map_some, Option.bind_some]
    cases command.slots.find? (·.placeholder = slot.placeholder) <;> rfl

/-- Commands that keep their slots keep their bindings. -/
theorem bound?_congr {other : Group}
    (same : ∀ index, (other.command? index).map (·.slots) = (group.command? index).map (·.slots))
    (slot : SlotName) : other.bound? slot = group.bound? slot := by
  rw [bound?, bound?, binding?_eq, binding?_eq, same]

/-- Switching all commands switches each of them. -/
theorem command?_setAllEnabled (group : Group) (enabled : Bool) (index : CommandIndex) :
    (group.setAllEnabled enabled).command? index =
      (group.command? index).map fun command => { command with enabled } := by
  simp [command?, setAllEnabled]

/-- Toggling all commands toggles each of them. -/
theorem command?_toggleAll (group : Group) (index : CommandIndex) :
    group.toggleAll.command? index =
      (group.command? index).map fun command => { command with enabled := !command.enabled } := by
  simp [command?, toggleAll]

/-- A command that is added has nothing bound, and leaves what is bound elsewhere. -/
theorem bound?_extend (group : Group) (typeName : String) (placeholders : List Placeholder)
    (slot : SlotName) : (group.extend typeName placeholders).bound? slot = group.bound? slot := by
  rw [bound?, bound?, binding?_eq, binding?_eq, command?_extend]
  by_cases new : slot.command = ⟨group.commands.length⟩
  · rw [if_pos new, new, command?_length]
    cases found : (Command.ofPlaceholders typeName placeholders).slots.find?
      (·.placeholder = slot.placeholder) with
    | none => simp [found]
    | some slot =>
      have member := List.mem_of_find?_eq_some found
      obtain ⟨placeholder, -, rfl⟩ := List.mem_map.mp member
      simp [found]
  · rw [if_neg new]

/-- Binding a slot changes what is bound there, and nothing else. -/
theorem bound?_rebind {target : SlotName} (declared : group.declares target) (binding : Binding)
    (slot : SlotName) :
    (group.rebind target binding).bound? slot =
      if target = slot then some binding else group.bound? slot := by
  rw [bound?, bound?, binding?_rebind]
  by_cases same : target = slot
  · subst same
    rw [declares_eq_isSome] at declared
    obtain ⟨before, found⟩ := Option.isSome_iff_exists.mp declared
    simp [found]
  · have different : slot ≠ target := fun eq => same eq.symm
    simp [same, different]

/-- An operation that fails leaves the group as it is. -/
theorem settle_of_fails (fails : (group.event arity operation).succeeds = false) :
    group.settle arity operation = group := by
  rw [event, GroupEvent.succeeds] at fails
  rw [settle]
  cases result : group.perform arity operation with
  | ok pair => simp [result, Except.isOk, Except.toBool] at fails
  | error fault => rfl

/-- Groups accept the operations that succeed. -/
theorem accepts_iff_succeeds :
    group.Accepts arity operation ↔ (group.event arity operation).succeeds := by
  have done := performed arity group operation
  rw [GroupEvent.succeeds]
  generalize group.settle arity operation = changed at done
  generalize (group.event arity operation).outcome = outcome at done ⊢
  cases done with
  | added counted distinct => exact iff_of_true ⟨counted, distinct⟩ rfl
  | bound declared binding => exact iff_of_true declared rfl
  | switched found enabled => exact iff_of_true (Option.isSome_of_eq_some found) rfl
  | toggled found => exact iff_of_true (Option.isSome_of_eq_some found) rfl
  | allSwitched enabled => exact iff_of_true trivial rfl
  | allToggled => exact iff_of_true trivial rfl
  | failed rejects fault => exact iff_of_false rejects Bool.false_ne_true

/-- Only an addition changes the outline. -/
theorem outline_settle (succeeds : (group.event arity operation).succeeds) :
    (group.settle arity operation).outline = group.outline ++ operation.addition?.toList := by
  have done := performed arity group operation
  rw [GroupEvent.succeeds] at succeeds
  generalize group.settle arity operation = changed at done ⊢
  generalize (group.event arity operation).outcome = outcome at done succeeds
  cases done with
  | added counted distinct => exact outline_extend ..
  | bound declared binding =>
    simp only [GroupOperation.addition?, Option.toList_none, List.append_nil]
    exact outline_modify _ _ fun command => ⟨rfl, Command.placeholders_bind ..⟩
  | switched found enabled =>
    simp only [GroupOperation.addition?, Option.toList_none, List.append_nil]
    exact outline_modify _ _ fun command => ⟨rfl, rfl⟩
  | toggled found =>
    simp only [GroupOperation.addition?, Option.toList_none, List.append_nil]
    exact outline_modify _ _ fun command => ⟨rfl, rfl⟩
  | allSwitched enabled =>
    simp [outline, setAllEnabled, GroupOperation.addition?, Function.comp_def,
      Command.placeholders]
  | allToggled =>
    simp [outline, toggleAll, GroupOperation.addition?, Function.comp_def, Command.placeholders]
  | failed rejects fault => cases succeeds

/-- A slot is bound by the operations that are aimed at it, if they succeed. -/
theorem bound?_settle (succeeds : (group.event arity operation).succeeds) (slot : SlotName) :
    (group.settle arity operation).bound? slot =
      (operation.binding? slot).or (group.bound? slot) := by
  have done := performed arity group operation
  rw [GroupEvent.succeeds] at succeeds
  generalize group.settle arity operation = changed at done ⊢
  generalize (group.event arity operation).outcome = outcome at done succeeds
  cases done with
  | added counted distinct => exact bound?_extend ..
  | @bound target declared binding =>
    rw [bound?_rebind declared, GroupOperation.binding?]
    by_cases aimed : target = slot <;> simp [aimed]
  | switched found enabled =>
    refine bound?_congr (fun index => ?_) slot
    rw [command?_modify]
    split <;> simp [Function.comp_def]
  | toggled found =>
    refine bound?_congr (fun index => ?_) slot
    rw [command?_modify]
    split <;> simp [Function.comp_def]
  | allSwitched enabled =>
    refine bound?_congr (fun index => ?_) slot
    simp [command?_setAllEnabled, Function.comp_def]
  | allToggled =>
    refine bound?_congr (fun index => ?_) slot
    simp [command?_toggleAll, Function.comp_def]
  | failed rejects fault => cases succeeds

/-- An addition adds a command at the index behind all others. -/
theorem adds_event (arity : ArityLookup) (group : Group) (operation : GroupOperation)
    (index : CommandIndex) :
    (group.event arity operation).adds index =
      ((group.event arity operation).succeeds && operation.addition?.isSome &&
        index = ⟨group.commands.length⟩) := by
  have done := performed arity group operation
  rw [GroupEvent.adds, GroupEvent.succeeds]
  generalize group.settle arity operation = changed at done
  generalize (group.event arity operation).outcome = outcome at done ⊢
  cases done with
  | added counted distinct =>
    simp [GroupOperation.addition?, Except.isOk, Except.toBool, eq_comm]
  | failed rejects fault => rfl
  | _ => simp [GroupOperation.addition?]

/-- A new command is enabled, and there was none at its index. -/
theorem enabled?_settle_of_adds {index : CommandIndex}
    (adds : (group.event arity operation).adds index) :
    group.enabled? index = none ∧ (group.settle arity operation).enabled? index = some true := by
  have done := performed arity group operation
  rw [GroupEvent.adds] at adds
  generalize group.settle arity operation = changed at done ⊢
  generalize (group.event arity operation).outcome = outcome at done adds
  cases done with
  | added counted distinct =>
    obtain rfl : (⟨group.commands.length⟩ : CommandIndex) = index := by simpa using adds
    rw [enabled?, enabled?, command?_length, command?_extend, if_pos rfl]
    exact ⟨rfl, rfl⟩
  | _ => simp at adds

/-- A flag is set or flipped by the operations that are about it, if they succeed. -/
theorem enabled?_settle {index : CommandIndex} (succeeds : (group.event arity operation).succeeds)
    (keeps : (group.event arity operation).adds index = false) :
    (group.settle arity operation).enabled? index =
      (group.enabled? index).map fun flag =>
        (operation.setting? index).getD (flag ^^ operation.flips index) := by
  have done := performed arity group operation
  rw [adds_event, succeeds] at keeps
  rw [GroupEvent.succeeds] at succeeds
  generalize group.settle arity operation = changed at done ⊢
  generalize (group.event arity operation).outcome = outcome at done succeeds
  cases done with
  | added counted distinct =>
    have old : index ≠ ⟨group.commands.length⟩ := by
      simpa [GroupOperation.addition?] using keeps
    simp [enabled?, command?_extend, old, GroupOperation.setting?, GroupOperation.flips,
      Function.comp_def]
  | @bound target declared binding =>
    rw [enabled?, rebind, command?_modify]
    split <;> simp [enabled?, Command.bind, GroupOperation.setting?, GroupOperation.flips,
      Function.comp_def]
  | @switched target command found enabled =>
    rw [enabled?, command?_modify]
    simp only [GroupOperation.setting?, GroupOperation.flips]
    by_cases aimed : target = index
    · simp [enabled?, aimed, Function.comp_def]
    · have different : index ≠ target := fun eq => aimed eq.symm
      simp [enabled?, aimed, different, Function.comp_def]
  | @toggled target command found =>
    rw [enabled?, command?_modify]
    simp only [GroupOperation.setting?, GroupOperation.flips]
    by_cases aimed : target = index
    · simp [enabled?, aimed, Function.comp_def]
    · have different : index ≠ target := fun eq => aimed eq.symm
      simp [enabled?, aimed, different, Function.comp_def]
  | allSwitched enabled =>
    simp [enabled?, command?_setAllEnabled, GroupOperation.setting?, Function.comp_def]
  | allToggled =>
    simp [enabled?, command?_toggleAll, GroupOperation.setting?, GroupOperation.flips,
      Function.comp_def]
  | failed rejects fault => cases succeeds

/-- Bound to a slot is what the last successful binding has bound there. -/
theorem bound?_after (arity : ArityLookup) (name : GroupName) (operations : List GroupOperation)
    (slot : SlotName) :
    ((empty name).after arity operations).bound? slot =
      ((GroupEvent.successes ((empty name).history arity operations)).filterMap
        (GroupOperation.binding? slot)).getLast? := by
  induction operations using List.reverseRecOn with
  | nil => rfl
  | append_singleton operations operation ih =>
    rw [after_concat, history_concat, GroupEvent.successes_concat]
    generalize (empty name).after arity operations = group at ih ⊢
    cases succeeds : (group.event arity operation).succeeds with
    | false =>
      rw [settle_of_fails succeeds, ih]
      rfl
    | true =>
      rw [bound?_settle succeeds, ih, if_pos rfl, List.filterMap_append, List.getLast?_append,
        operation_event]
      cases binds : operation.binding? slot <;> simp [binds]

/-- A command is enabled or not as the successful operations since it was added have left it. -/
theorem enabled?_after (arity : ArityLookup) (name : GroupName) (operations : List GroupOperation)
    (index : CommandIndex) :
    ((empty name).after arity operations).enabled? index =
      (GroupEvent.sinceAdded? index ((empty name).history arity operations)).map fun since =>
        GroupOperation.flag index (GroupEvent.successes since) := by
  induction operations using List.reverseRecOn with
  | nil => rfl
  | append_singleton operations operation ih =>
    rw [after_concat, history_concat, GroupEvent.sinceAdded?_concat]
    generalize (empty name).after arity operations = group at ih ⊢
    generalize GroupEvent.sinceAdded? index ((empty name).history arity operations) = added at ih ⊢
    cases adds : (group.event arity operation).adds index with
    | true =>
      obtain ⟨absent, present⟩ := enabled?_settle_of_adds adds
      have notAdded : added = none := by simpa [absent] using ih
      rw [present, notAdded]
      rfl
    | false =>
      cases succeeds : (group.event arity operation).succeeds with
      | false =>
        rw [settle_of_fails succeeds, ih]
        cases added <;> simp [GroupEvent.successes_concat, succeeds]
      | true =>
        rw [enabled?_settle succeeds adds, ih]
        cases added with
        | none => rfl
        | some since =>
          simp only [Option.map_some, GroupEvent.successes_concat, succeeds, if_true,
            operation_event]
          cases sets : operation.setting? index with
          | some value => simp [GroupOperation.flag_concat_of_setting? sets]
          | none => simp [GroupOperation.flag_concat sets]

/-! Operations that are about something else. -/

variable {other : Group} {slot : SlotName} {index : CommandIndex}

/-- Whether an operation succeeds is told by the outline of the group. -/
theorem succeeds_congr (same : group.outline = other.outline) (operation : GroupOperation) :
    (group.event arity operation).succeeds = (other.event arity operation).succeeds := by
  rw [Bool.eq_iff_iff, ← accepts_iff_succeeds, ← accepts_iff_succeeds, accepts_congr same]

/-- The outline that an operation leaves is told by the outline before it. -/
theorem outline_settle_congr (same : group.outline = other.outline)
    (operation : GroupOperation) :
    (group.settle arity operation).outline = (other.settle arity operation).outline := by
  have sameSucceeds : (group.event arity operation).succeeds =
      (other.event arity operation).succeeds := succeeds_congr same operation
  cases succeeds : (group.event arity operation).succeeds with
  | true =>
    rw [outline_settle succeeds, outline_settle (sameSucceeds ▸ succeeds), same]
  | false =>
    rw [settle_of_fails succeeds, settle_of_fails (sameSucceeds ▸ succeeds), same]

/-- What is bound behind an operation is told by the outline and what was bound before. -/
theorem bound?_settle_congr (same : group.outline = other.outline)
    (sameBound : group.bound? slot = other.bound? slot) (operation : GroupOperation) :
    (group.settle arity operation).bound? slot = (other.settle arity operation).bound? slot := by
  have sameSucceeds : (group.event arity operation).succeeds =
      (other.event arity operation).succeeds := succeeds_congr same operation
  cases succeeds : (group.event arity operation).succeeds with
  | true =>
    rw [bound?_settle succeeds, bound?_settle (sameSucceeds ▸ succeeds), sameBound]
  | false =>
    rw [settle_of_fails succeeds, settle_of_fails (sameSucceeds ▸ succeeds), sameBound]

/-- Whether a command is enabled behind an operation is told by the outline and whether it was
before. -/
theorem enabled?_settle_congr (same : group.outline = other.outline)
    (sameFlag : group.enabled? index = other.enabled? index) (operation : GroupOperation) :
    (group.settle arity operation).enabled? index =
      (other.settle arity operation).enabled? index := by
  have sameSucceeds : (group.event arity operation).succeeds =
      (other.event arity operation).succeeds := succeeds_congr same operation
  have sameLength : group.commands.length = other.commands.length := by
    simpa [outline] using congrArg List.length same
  have sameAdds : (group.event arity operation).adds index =
      (other.event arity operation).adds index := by
    rw [adds_event, adds_event, sameSucceeds, sameLength]
  cases succeeds : (group.event arity operation).succeeds with
  | false =>
    rw [settle_of_fails succeeds, settle_of_fails (sameSucceeds ▸ succeeds), sameFlag]
  | true =>
    cases adds : (group.event arity operation).adds index with
    | true =>
      rw [(enabled?_settle_of_adds adds).2, (enabled?_settle_of_adds (sameAdds ▸ adds)).2]
    | false =>
      rw [enabled?_settle succeeds adds,
        enabled?_settle (sameSucceeds ▸ succeeds) (sameAdds ▸ adds), sameFlag]

/-- What operations do to a part of a group that they decide from this part and the outline. -/
theorem after_congr {Part : Type} {part : Group → Part}
    (settles : ∀ {group other : Group}, group.outline = other.outline → part group = part other →
      ∀ operation, part (group.settle arity operation) = part (other.settle arity operation))
    (same : group.outline = other.outline) (samePart : part group = part other)
    (operations : List GroupOperation) :
    part (group.after arity operations) = part (other.after arity operations) := by
  induction operations generalizing group other with
  | nil => exact samePart
  | cons operation rest ih =>
    exact ih (outline_settle_congr same operation) (settles same samePart operation)

/-- An operation that adds nothing leaves the outline as it is. -/
theorem outline_settle_of_spares (spares : operation.addition? = none) :
    (group.settle arity operation).outline = group.outline := by
  cases succeeds : (group.event arity operation).succeeds with
  | true => simp [outline_settle succeeds, spares]
  | false => rw [settle_of_fails succeeds]

/-- An operation that binds nothing to a slot leaves what is bound there. -/
theorem bound?_settle_of_spares (spares : operation.binding? slot = none) :
    (group.settle arity operation).bound? slot = group.bound? slot := by
  cases succeeds : (group.event arity operation).succeeds with
  | true => simp [bound?_settle succeeds, spares]
  | false => rw [settle_of_fails succeeds]

/-- An operation that neither sets nor flips the flag of a command leaves it. -/
theorem enabled?_settle_of_spares (noAddition : operation.addition? = none)
    (noSetting : operation.setting? index = none) (noFlip : operation.flips index = false) :
    (group.settle arity operation).enabled? index = group.enabled? index := by
  have keeps : (group.event arity operation).adds index = false := by
    simp [adds_event, noAddition]
  cases succeeds : (group.event arity operation).succeeds with
  | true => simp [enabled?_settle succeeds keeps, noSetting, noFlip]
  | false => rw [settle_of_fails succeeds]

/-- After any operations on a new group, the binding of a slot is that of the last successful bind
to it, and the enabled flag of a command is the value of the last operation since it was added that
sets it, or true, flipped by each of the later ones that flips it. Operations about another slot or
another command could be left out at any place without a difference. -/
theorem state_follows_history (arity : ArityLookup) (name : GroupName)
    (operations : List GroupOperation) :
    let group := (empty name).after arity operations
    let events := (empty name).history arity operations
    events.map (·.operation) = operations ∧
      (∀ slot, group.bound? slot =
        ((GroupEvent.successes events).filterMap (GroupOperation.binding? slot)).getLast?) ∧
      (∀ index, group.enabled? index =
        (GroupEvent.sinceAdded? index events).map fun since =>
          GroupOperation.flag index (GroupEvent.successes since)) ∧
      ∀ before operation behind, operations = before ++ operation :: behind →
        operation.addition? = none →
        let without := (empty name).after arity (before ++ behind)
        (∀ slot, operation.binding? slot = none → group.bound? slot = without.bound? slot) ∧
          ∀ index, operation.setting? index = none → operation.flips index = false →
            group.enabled? index = without.enabled? index := by
  refine ⟨operations_history .., bound?_after arity name operations,
    enabled?_after arity name operations, ?_⟩
  rintro before operation behind rfl noAddition
  simp only [after_append]
  have outline : (((empty name).after arity before).settle arity operation).outline =
      ((empty name).after arity before).outline := outline_settle_of_spares noAddition
  constructor
  · intro slot spares
    exact after_congr bound?_settle_congr outline (bound?_settle_of_spares spares) behind
  · intro index noSetting noFlip
    exact after_congr enabled?_settle_congr outline
      (enabled?_settle_of_spares noAddition noSetting noFlip) behind

end Group

end TimedCommands
