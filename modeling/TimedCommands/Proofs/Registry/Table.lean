import TimedCommands.Proofs.Group.Template
import TimedCommands.Proofs.Registry.History

/-!
# Groups in a table

A `Registry` finds a group by its name, so no group can lie under a name that is not its own. An
engine that keeps its groups in a table under their names has to see to that itself.

`GroupTable` is that engine, with a template for every command. Carried out on a table, operations
come to the same and leave the same groups (`registry_perform`), and nothing is ever filed in a
wrong place (`WellFiled`), so what is true of the tables is true of every registry that operations
build (`registry_well_formed`).
-/

namespace TimedCommands

/-- Groups of templates under their names, in creation order. -/
structure GroupTable where
  entries : Table TemplateGroup

namespace GroupTable

variable {arity : ArityLookup} {table : GroupTable} {name : GroupName} {filed : TemplateGroup}

/-- Nothing is filed. -/
def empty : GroupTable := ⟨[]⟩

/-- The registry of the groups. -/
def registry (table : GroupTable) : Registry := ⟨table.entries.map (·.2.group)⟩

/-- Carries out an operation. -/
def perform (arity : ArityLookup) (table : GroupTable) :
    RegistryOperation → Except Fault (GroupTable × Answer)
  | .create name =>
    match table.entries.lookup name with
    | some _ => .error (.duplicateGroup name)
    | none => .ok (⟨table.entries.put name (TemplateGroup.empty name)⟩, .done)
  | .change name operation =>
    match table.entries.lookup name with
    | none => .error (.groupNotFound name)
    | some filed => do
      let (changed, answer) ← filed.perform arity operation
      return (⟨table.entries.put name changed⟩, answer)

/-- The table after an operation. One that fails changes nothing. -/
def settle (arity : ArityLookup) (table : GroupTable) (operation : RegistryOperation) :
    GroupTable :=
  match table.perform arity operation with
  | .ok (changed, _) => changed
  | .error _ => table

/-- The table after operations. -/
def after (arity : ArityLookup) (table : GroupTable) (operations : List RegistryOperation) :
    GroupTable :=
  operations.foldl (settle arity) table

/-- Operations with what they come to, one after the other. -/
def history (arity : ArityLookup) : GroupTable → List RegistryOperation → List RegistryEvent
  | _, [] => []
  | table, operation :: rest =>
    ⟨operation, (table.perform arity operation).map (·.2)⟩ ::
      (table.settle arity operation).history arity rest

/-- Every key is the name of its group and stands once, and every template is well filed. -/
structure WellFiled (arity : ArityLookup) (table : GroupTable) : Prop where
  keys_distinct : table.entries.keys.Nodup
  named : ∀ entry ∈ table.entries, entry.2.name = entry.1
  templates : ∀ entry ∈ table.entries, entry.2.WellFiled arity

/-- An empty table is well filed. -/
theorem wellFiled_empty (arity : ArityLookup) : empty.WellFiled arity :=
  ⟨List.nodup_nil, by simp [empty], by simp [empty]⟩

/-- A group that is filed under its name leaves a table well filed. -/
theorem WellFiled.put (wellFiled : table.WellFiled arity) (named : filed.name = name)
    (templates : filed.WellFiled arity) :
    (⟨table.entries.put name filed⟩ : GroupTable).WellFiled arity where
  keys_distinct := Table.nodup_keys_put wellFiled.keys_distinct name filed
  named := by
    intro entry member
    rcases Table.mem_put member with rfl | earlier
    · exact named
    · exact wellFiled.named entry earlier
  templates := by
    intro entry member
    rcases Table.mem_put member with rfl | earlier
    · exact templates
    · exact wellFiled.templates entry earlier

/-- No operation files anything in a wrong place. -/
theorem WellFiled.settle (wellFiled : table.WellFiled arity) (operation : RegistryOperation) :
    (table.settle arity operation).WellFiled arity := by
  rw [GroupTable.settle]
  cases operation with
  | create name =>
    rw [perform]
    cases table.entries.lookup name with
    | some filed => exact wellFiled
    | none => exact wellFiled.put rfl (by simp [TemplateGroup.WellFiled, TemplateGroup.empty])
  | change name operation =>
    rw [perform]
    cases found : table.entries.lookup name with
    | none => exact wellFiled
    | some filed =>
      cases done : filed.perform arity operation with
      | error fault => simpa [done] using wellFiled
      | ok result =>
        obtain ⟨changed, answer⟩ := result
        have entry := Table.mem_of_lookup found
        obtain ⟨templates, sameName⟩ := (wellFiled.templates _ entry).perform done
        simpa [done] using wellFiled.put (sameName.trans (wellFiled.named _ entry)) templates

/-- The rest of a table that is well filed is well filed. -/
theorem WellFiled.tail {entry : String × TemplateGroup} {rest : Table TemplateGroup}
    (wellFiled : (⟨entry :: rest⟩ : GroupTable).WellFiled arity) :
    (⟨rest⟩ : GroupTable).WellFiled arity :=
  ⟨(List.nodup_cons.mp wellFiled.keys_distinct).2, (List.forall_mem_cons.mp wellFiled.named).2,
    (List.forall_mem_cons.mp wellFiled.templates).2⟩

/-- A table whose keys are the names of its groups finds what its registry finds. -/
theorem find?_registry (wellFiled : table.WellFiled arity) (name : GroupName) :
    table.registry.find? name = (table.entries.lookup name).map TemplateGroup.group := by
  obtain ⟨entries⟩ := table
  rw [Registry.find?, registry]
  induction entries with
  | nil => rfl
  | cons entry rest ih =>
    obtain ⟨key, filed⟩ := entry
    have here : filed.group.name = key := wellFiled.named (key, filed) (.head _)
    rw [Table.lookup_cons, List.map_cons, List.find?_cons]
    by_cases same : name = key
    · simp [same, here]
    · have different : key ≠ name := fun eq => same eq.symm
      simpa [same, here, different] using ih wellFiled.tail

/-- Putting a changed group under its name changes the registry in the place of the group. -/
theorem registry_put (wellFiled : table.WellFiled arity)
    (found : table.entries.lookup name = some filed) {changed : TemplateGroup}
    (named : changed.name = name) :
    (⟨table.entries.put name changed⟩ : GroupTable).registry =
      table.registry.replace changed.group := by
  obtain ⟨entries⟩ := table
  have changedName : changed.group.name = name := named
  simp only [registry, Registry.replace, Registry.mk.injEq, List.map_map, changedName]
  induction entries with
  | nil => cases found
  | cons entry rest ih =>
    obtain ⟨key, held⟩ := entry
    have here : held.group.name = key := wellFiled.named (key, held) (.head _)
    by_cases same : key = name
    · -- The name stands once, so nothing behind its place is changed.
      have apart : ∀ entry ∈ rest, entry.2.group.name ≠ name := by
        intro entry member named
        have isName : entry.1 = name := (wellFiled.named entry (.tail _ member)).symm.trans named
        have isKey : entry.1 ∈ Table.keys rest := List.mem_map_of_mem member
        have absent : key ∉ Table.keys rest := (List.nodup_cons.mp wellFiled.keys_distinct).1
        rw [isName, ← same] at isKey
        exact absent isKey
      have unchanged : rest.map (·.2.group) =
          rest.map fun entry =>
            if entry.2.group.name = name then changed.group else entry.2.group :=
        List.map_congr_left fun entry member => (if_neg (apart entry member)).symm
      simpa [Table.put, same, here] using unchanged
    · have later : rest.lookup name = some filed := by
        rw [Table.lookup_cons] at found
        have different : name ≠ key := fun eq => same eq.symm
        simpa [different] using found
      simpa [Table.put, same, here] using ih wellFiled.tail later

/-- Carried out on a table, an operation comes to the same and leaves the same groups. -/
theorem registry_perform (wellFiled : table.WellFiled arity) (operation : RegistryOperation) :
    (table.perform arity operation).map (fun (changed, answer) => (changed.registry, answer)) =
      table.registry.perform arity operation := by
  cases operation with
  | create name =>
    rw [perform, Registry.perform, Registry.create, Registry.contains, find?_registry wellFiled]
    cases absent : table.entries.lookup name with
    | some filed => rfl
    | none =>
      simp [registry, Table.put_of_lookup_eq_none absent, TemplateGroup.empty,
        TemplateGroup.group, Group.empty]
  | change name operation =>
    rw [perform, Registry.perform, Registry.get, find?_registry wellFiled]
    cases found : table.entries.lookup name with
    | none => rfl
    | some filed =>
      simp only [Option.map_some, ok_bind, ← filed.group_perform arity operation]
      cases done : filed.perform arity operation with
      | error fault => rfl
      | ok result =>
        obtain ⟨changed, answer⟩ := result
        have entry := Table.mem_of_lookup found
        obtain ⟨-, sameName⟩ := (wellFiled.templates _ entry).perform done
        have named := sameName.trans (wellFiled.named _ entry)
        exact congrArg (fun registry => Except.ok (registry, answer))
          (registry_put wellFiled found named)

/-- An operation does to a table what it does to the registry that it files, with the same
answer. -/
theorem settle_agrees (wellFiled : table.WellFiled arity) (operation : RegistryOperation) :
    (table.settle arity operation).registry = table.registry.settle arity operation ∧
      (table.perform arity operation).map (·.2) =
        (table.registry.event arity operation).outcome := by
  rw [settle, Registry.settle, Registry.event, ← registry_perform wellFiled operation]
  cases table.perform arity operation <;> exact ⟨rfl, rfl⟩

/-- Carried out on a table, operations come to the same, leave the same groups, and file nothing in
a wrong place. -/
theorem after_agrees (wellFiled : table.WellFiled arity) (operations : List RegistryOperation) :
    (table.after arity operations).registry = table.registry.after arity operations ∧
      table.history arity operations = table.registry.history arity operations ∧
      (table.after arity operations).WellFiled arity := by
  induction operations generalizing table with
  | nil => exact ⟨rfl, rfl, wellFiled⟩
  | cons operation rest ih =>
    obtain ⟨sameRegistry, sameOutcome⟩ := settle_agrees wellFiled operation
    obtain ⟨registry, history, filed⟩ := ih (wellFiled.settle operation)
    rw [sameRegistry] at registry history
    refine ⟨registry, ?_, filed⟩
    rw [GroupTable.history, Registry.history, history, sameOutcome]
    rfl

end GroupTable

/-- A raw number denotes the index that it was written from, if that fits 32 bits. -/
theorem CommandIndex.ofRaw?_toRaw {index : CommandIndex} (fits : (index.number : Int) ≤ maxCount) :
    ofRaw? index.toRaw = some index := by
  obtain ⟨position⟩ := index
  simp only [number, maxCount] at fits
  have raw : (toRaw ⟨position⟩).toInt = ((position + 1 : Nat) : Int) := by
    have small : position + 1 < 2 ^ 63 := by omega
    exact Int64.toInt_ofInt_of_le (n := ((position + 1 : Nat) : Int)) (by omega) (by omega)
  rw [ofRaw?, raw, if_pos ⟨by omega, by simpa [maxCount] using fits⟩, Int.toNat_natCast,
    Nat.add_sub_cancel]

namespace GroupTable

/-- The commands of a group that is filed well are well formed. -/
theorem WellFiled.commands {arity : ArityLookup} {table : GroupTable} {name : GroupName}
    {group : Group} (wellFiled : table.WellFiled arity)
    (found : table.registry.get name = .ok group) :
    ∀ command ∈ group.commands, command.placeholders.Nodup ∧
      arity command.typeName = some command.placeholders.length := by
  rw [Registry.get_eq_ok_iff, find?_registry wellFiled, Option.map_eq_some_iff] at found
  obtain ⟨filed, isFiled, rfl⟩ := found
  intro command member
  obtain ⟨template, isTemplate, rfl⟩ := List.mem_map.mp member
  have templates := wellFiled.templates _ (Table.mem_of_lookup isFiled) template isTemplate
  rw [Template.placeholders_command]
  exact ⟨templates.distinct, templates.counted⟩

end GroupTable

/-- After any operations on a registry, its groups are those that were created, under their own
names and in their order. A command has as many placeholders as its type takes, all of them
different, and is bound at no other. The additions to a group have answered its indices one after
the other from 1 on, and at each of them is the command that was added. Further operations take
none of that back. -/
theorem registry_well_formed (arity : ArityLookup) (operations : List RegistryOperation) :
    let registry := Registry.empty.after arity operations
    let events := Registry.empty.history arity operations
    let table := GroupTable.empty.after arity operations
    (table.registry = registry ∧ GroupTable.empty.history arity operations = events ∧
        table.WellFiled arity) ∧
      (events.map (·.operation) = operations ∧
        registry.names = events.filterMap RegistryEvent.created? ∧ registry.names.Nodup) ∧
      (∀ name group, registry.get name = .ok group →
        let additions := events.filterMap (RegistryEvent.addition? name)
        group.name = name ∧
          (∀ command ∈ group.commands, command.placeholders.Nodup ∧
            arity command.typeName = some command.placeholders.length) ∧
          additions.length = group.commands.length ∧
          ∀ position addition, additions[position]? = some addition →
            addition.index.number = position + 1 ∧
              ((position + 1 : Nat) ≤ maxCount →
                CommandIndex.ofRaw? addition.index.toRaw = some addition.index) ∧
              ∃ command, group.command? addition.index = some command ∧
                command.typeName = addition.typeName ∧
                command.placeholders = addition.placeholders) ∧
      ∀ later, let final := registry.after arity later
        registry.names <+: final.names ∧
          ∀ name group, registry.get name = .ok group →
            ∃ grown, final.get name = .ok grown ∧ grown.name = name ∧
              group.outline <+: grown.outline := by
  intro registry events table
  obtain ⟨sameRegistry, sameHistory, wellFiled⟩ :=
    GroupTable.after_agrees (GroupTable.wellFiled_empty arity) operations
  have names : registry.names = events.filterMap RegistryEvent.created? :=
    Registry.names_after arity Registry.empty operations
  have none : Registry.empty.names.Nodup := List.nodup_nil
  have distinct : registry.names.Nodup := Registry.nodup_names_after none operations
  refine ⟨⟨sameRegistry, sameHistory, wellFiled⟩,
    ⟨Registry.operations_history _ _, names, distinct⟩, ?_, ?_⟩
  · intro name group found additions
    have filed : table.registry.get name = .ok group := sameRegistry ▸ found
    refine ⟨Registry.name_of_get found, wellFiled.commands filed,
      Registry.length_additions found, ?_⟩
    intro position addition isAddition
    obtain ⟨answered, command⟩ := Registry.command?_of_addition found isAddition
    have number : addition.index.number = position + 1 := by rw [answered, CommandIndex.number]
    exact ⟨number, fun fits => CommandIndex.ofRaw?_toRaw (number ▸ fits), command⟩
  · intro later final
    have grown : final.names = registry.names ++ _ := Registry.names_after arity registry later
    refine ⟨grown ▸ List.prefix_append .., fun name group found => ?_⟩
    obtain ⟨grown, present, outline⟩ := Registry.get_after found later
    exact ⟨grown, present, Registry.name_of_get present, outline ▸ List.prefix_append ..⟩

end TimedCommands
