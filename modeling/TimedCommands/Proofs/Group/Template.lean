import TimedCommands.Proofs.Group.Operation
import TimedCommands.Proofs.Table

/-!
# Bindings in a table

A slot of a `Command` carries its own binding, so none can be bound that was not declared. An engine
that keeps the bindings of a command in a table beside its placeholders has to see to that itself.
`Template` is a command of that kind. Carried out on templates, operations come to the same and
leave the same commands (`group_perform`), and no template is ever bound at a placeholder that it
does not have (`TemplateGroup.WellFiled.perform`).
-/

namespace TimedCommands

/-- A command whose bindings stand in a table beside its placeholders. -/
structure Template where
  typeName : String
  placeholders : List Placeholder
  bindings : Table Binding
  enabled : Bool

namespace Template

variable {arity : ArityLookup} {template : Template} {placeholder : Placeholder}
  {binding : Binding}

/-- The command, with each binding at its slot. -/
def command (template : Template) : Command where
  typeName := template.typeName
  slots := template.placeholders.map fun placeholder =>
    ⟨placeholder, template.bindings.lookup placeholder⟩
  enabled := template.enabled

/-- Binds a placeholder, replacing an earlier binding. -/
def bind (template : Template) (placeholder : Placeholder) (binding : Binding) : Template :=
  { template with bindings := template.bindings.put placeholder binding }

/-- A template has as many placeholders as its type takes, all of them different, and no binding
but for one of them. -/
structure WellFiled (arity : ArityLookup) (template : Template) : Prop where
  distinct : template.placeholders.Nodup
  counted : arity template.typeName = some template.placeholders.length
  keys_distinct : template.bindings.keys.Nodup
  keys_subset : template.bindings.keys ⊆ template.placeholders

/-- A template has the placeholders of its command. -/
@[simp] theorem placeholders_command (template : Template) :
    template.command.placeholders = template.placeholders := by
  simp [command, Command.placeholders, Function.comp_def]

/-- Binding a placeholder of a template binds that of its command. -/
theorem command_bind (template : Template) (placeholder : Placeholder) (binding : Binding) :
    (template.bind placeholder binding).command = template.command.bind placeholder binding := by
  simp only [command, bind, Command.bind, List.map_map, Command.mk.injEq, true_and, and_true]
  refine List.map_congr_left fun other _ => ?_
  by_cases same : other = placeholder <;> simp [Table.lookup_put, same]

/-- A template is well filed with a declared placeholder bound. -/
theorem WellFiled.bind (wellFiled : template.WellFiled arity)
    (declared : placeholder ∈ template.placeholders) (binding : Binding) :
    (template.bind placeholder binding).WellFiled arity where
  distinct := wellFiled.distinct
  counted := wellFiled.counted
  keys_distinct := Table.nodup_keys_put wellFiled.keys_distinct placeholder binding
  keys_subset := by
    have keys := Table.keys_put placeholder binding template.bindings
    intro key member
    change key ∈ (template.bindings.put placeholder binding).keys at member
    rw [keys] at member
    split at member
    · exact wellFiled.keys_subset member
    · rcases List.mem_append.mp member with earlier | new
      · exact wellFiled.keys_subset earlier
      · exact List.mem_singleton.mp new ▸ declared

/-- A template is well filed whether or not it is enabled. -/
theorem WellFiled.switch (wellFiled : template.WellFiled arity) (enabled : Bool) :
    { template with enabled }.WellFiled arity :=
  ⟨wellFiled.distinct, wellFiled.counted, wellFiled.keys_distinct, wellFiled.keys_subset⟩

end Template

/-- A group of templates. -/
structure TemplateGroup where
  name : GroupName
  templates : List Template

namespace TemplateGroup

variable {arity : ArityLookup} {filed : TemplateGroup}

/-- A group without templates. -/
def empty (name : GroupName) : TemplateGroup := ⟨name, []⟩

/-- The group of the commands. -/
def group (filed : TemplateGroup) : Group := ⟨filed.name, filed.templates.map Template.command⟩

/-- The template at an index. -/
def template? (filed : TemplateGroup) (index : CommandIndex) : Option Template :=
  filed.templates[index.position]?

/-- Changes the template at an index. -/
def modify (filed : TemplateGroup) (index : CommandIndex) (change : Template → Template) :
    TemplateGroup :=
  { filed with templates := filed.templates.modify index.position change }

/-- Carries out an operation. -/
def perform (arity : ArityLookup) (filed : TemplateGroup) :
    GroupOperation → Except Fault (TemplateGroup × Answer)
  | .add typeName placeholders =>
    match arity typeName with
    | none => .error (.unknownCommandType typeName)
    | some expected =>
      if placeholders.length ≠ expected then
        .error (.arityMismatch typeName expected placeholders.length)
      else match firstRepeated? [] placeholders with
        | some placeholder => .error (.duplicatePlaceholder placeholder)
        | none =>
          .ok ({ filed with templates := filed.templates ++ [⟨typeName, placeholders, [], true⟩] },
            .added ⟨filed.templates.length⟩)
  | .bind slot binding =>
    match filed.template? slot.command with
    | none => .error (.unknownSlot slot)
    | some template =>
      if slot.placeholder ∈ template.placeholders then
        .ok (filed.modify slot.command (·.bind slot.placeholder binding), .done)
      else .error (.unknownSlot slot)
  | .setEnabled index enabled =>
    match filed.template? index with
    | none => .error (.commandNotFound index)
    | some _ => .ok (filed.modify index fun template => { template with enabled }, .done)
  | .toggle index =>
    match filed.template? index with
    | none => .error (.commandNotFound index)
    | some template =>
      .ok (filed.modify index fun template => { template with enabled := !template.enabled },
        .toggled !template.enabled)
  | .setAllEnabled enabled =>
    .ok ({ filed with templates := filed.templates.map fun template => { template with enabled } },
      .done)
  | .toggleAll =>
    .ok ({ filed with
      templates := filed.templates.map fun template =>
        { template with enabled := !template.enabled } }, .done)

/-- The command at an index is that of the template there. -/
theorem command?_group (filed : TemplateGroup) (index : CommandIndex) :
    filed.group.command? index = (filed.template? index).map Template.command := by
  simp [TemplateGroup.group, Group.command?, template?]

/-- A slot is declared if the template at its index has the placeholder. -/
theorem declares_group (filed : TemplateGroup) (slot : SlotName) :
    filed.group.declares slot =
      match filed.template? slot.command with
      | none => false
      | some template => decide (slot.placeholder ∈ template.placeholders) := by
  rw [Group.declares, command?_group]
  cases filed.template? slot.command with
  | none => rfl
  | some template =>
    rw [Bool.eq_iff_iff]
    simp [Command.slot?, Template.command]

/-- Changing a template changes its command in the group. -/
theorem group_modify (filed : TemplateGroup) (index : CommandIndex)
    {change : Template → Template} {commandChange : Command → Command}
    (agrees : ∀ template, (change template).command = commandChange template.command) :
    (filed.modify index change).group = filed.group.modify index commandChange := by
  simp only [TemplateGroup.group, modify, Group.modify, Group.mk.injEq, true_and]
  apply List.ext_getElem?
  intro position
  simp only [List.getElem?_map, List.getElem?_modify]
  cases filed.templates[position]? with
  | none => rfl
  | some template => by_cases same : index.position = position <;> simp [same, agrees]

/-- Carried out on templates, an operation comes to the same and leaves the same commands. -/
theorem group_perform (arity : ArityLookup) (filed : TemplateGroup) (operation : GroupOperation) :
    (filed.perform arity operation).map (fun (changed, answer) => (changed.group, answer)) =
      filed.group.perform arity operation := by
  cases operation with
  | add typeName placeholders =>
    rw [perform, Group.perform, Group.add]
    cases arity typeName with
    | none => rfl
    | some expected =>
      by_cases counted : placeholders.length = expected
      · cases repeated : firstRepeated? [] placeholders with
        | some placeholder => simp [counted]
        | none => simp [counted, TemplateGroup.group, Template.command, Command.ofPlaceholders]
      · simp [counted]
  | bind slot binding =>
    rw [perform, Group.perform, Group.bind, declares_group]
    cases filed.template? slot.command with
    | none => rfl
    | some template =>
      by_cases declared : slot.placeholder ∈ template.placeholders
      · simp only [declared, decide_true, if_true, ok_map, ok_bind, pure_eq_ok]
        refine congrArg (fun changed => Except.ok (changed, Answer.done)) ?_
        exact group_modify filed slot.command fun template =>
          template.command_bind slot.placeholder binding
      · simp [declared]
  | setEnabled index enabled =>
    rw [perform, Group.perform, Group.setEnabled, command?_group]
    cases filed.template? index with
    | none => rfl
    | some template =>
      simp only [Option.map_some, ok_map, ok_bind, pure_eq_ok]
      refine congrArg (fun changed => Except.ok (changed, Answer.done)) ?_
      exact group_modify filed index fun _ => rfl
  | toggle index =>
    rw [perform, Group.perform, Group.toggle, command?_group]
    cases filed.template? index with
    | none => rfl
    | some template =>
      simp only [Option.map_some, ok_map, ok_bind, pure_eq_ok]
      refine congrArg (fun changed => Except.ok (changed, Answer.toggled !template.enabled)) ?_
      exact group_modify filed index fun _ => rfl
  | setAllEnabled enabled =>
    simp only [perform, Group.perform, ok_map, pure_eq_ok, TemplateGroup.group,
      Group.setAllEnabled, List.map_map]
    rfl
  | toggleAll =>
    simp only [perform, Group.perform, ok_map, pure_eq_ok, TemplateGroup.group,
      Group.toggleAll, List.map_map]
    rfl

/-- Every template of a group is well filed. -/
def WellFiled (arity : ArityLookup) (filed : TemplateGroup) : Prop :=
  ∀ template ∈ filed.templates, template.WellFiled arity

/-- A group of templates stays well filed if the template that is changed does. -/
theorem WellFiled.modify (wellFiled : filed.WellFiled arity) (index : CommandIndex)
    {change : Template → Template}
    (keeps : ∀ template, filed.template? index = some template → template.WellFiled arity →
      (change template).WellFiled arity) :
    (filed.modify index change).WellFiled arity := by
  intro template member
  obtain ⟨position, isTemplate⟩ := List.mem_iff_getElem?.mp member
  rw [TemplateGroup.modify, List.getElem?_modify, Option.map_eq_map,
    Option.map_eq_some_iff] at isTemplate
  obtain ⟨before, found, rfl⟩ := isTemplate
  have was := wellFiled before (List.mem_of_getElem? found)
  split
  next same =>
    subst same
    exact keeps before found was
  next => exact was

/-- A group of templates stays well filed if each of them does. -/
theorem WellFiled.map (wellFiled : filed.WellFiled arity) {change : Template → Template}
    (keeps : ∀ template, template.WellFiled arity → (change template).WellFiled arity) :
    ∀ template ∈ filed.templates.map change, template.WellFiled arity := by
  intro template member
  obtain ⟨before, isBefore, rfl⟩ := List.mem_map.mp member
  exact keeps before (wellFiled before isBefore)

/-- No operation files anything in a wrong place. -/
theorem WellFiled.perform (wellFiled : filed.WellFiled arity) {operation : GroupOperation}
    {changed : TemplateGroup} {answer : Answer}
    (done : filed.perform arity operation = .ok (changed, answer)) :
    changed.WellFiled arity ∧ changed.name = filed.name := by
  cases operation with
  | add typeName placeholders =>
    rw [TemplateGroup.perform] at done
    split at done
    next => cases done
    next expected known =>
      split at done
      next => cases done
      next counted =>
        split at done
        next => cases done
        next notRepeated =>
          cases done
          refine ⟨fun template member => ?_, rfl⟩
          rcases List.mem_append.mp member with earlier | new
          · exact wellFiled template earlier
          · obtain rfl := List.mem_singleton.mp new
            have same : placeholders.length = expected := Classical.not_not.mp counted
            exact ⟨(firstRepeated?_eq_none_iff.mp notRepeated).1, same ▸ known, List.nodup_nil,
              List.nil_subset _⟩
  | bind slot binding =>
    rw [TemplateGroup.perform] at done
    split at done
    next => cases done
    next template found =>
      split at done
      next declared =>
        cases done
        refine ⟨wellFiled.modify _ fun other isOther was => ?_, rfl⟩
        obtain rfl := Option.some.inj (found.symm.trans isOther)
        exact was.bind declared binding
      next => cases done
  | setEnabled index enabled =>
    rw [TemplateGroup.perform] at done
    split at done
    next => cases done
    next =>
      cases done
      exact ⟨wellFiled.modify _ fun _ _ was => was.switch _, rfl⟩
  | toggle index =>
    rw [TemplateGroup.perform] at done
    split at done
    next => cases done
    next =>
      cases done
      exact ⟨wellFiled.modify _ fun _ _ was => was.switch _, rfl⟩
  | setAllEnabled enabled =>
    cases done
    exact ⟨wellFiled.map fun _ was => was.switch _, rfl⟩
  | toggleAll =>
    cases done
    exact ⟨wellFiled.map fun _ was => was.switch _, rfl⟩

end TemplateGroup

end TimedCommands
