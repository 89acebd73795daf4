import TimedCommands.Proofs.Group.History
import TimedCommands.Proofs.Schedule.Firing

/-!
# A registry follows its history

Operations on a registry create groups and change them. Like those on a single group they keep a
history, and what the registry has become can be read off it: its names are those that were
created, in order (`names_after`), and the commands of a group are those that were added to it, at
the indices that were answered (`outlineOf_after`). So a command stays at its index, and a name in
its place, whatever comes later.
-/

namespace TimedCommands

/-- What can be asked of a registry: a new group, or an operation on one that exists. -/
inductive RegistryOperation where
  | create (name : GroupName)
  | change (name : GroupName) (operation : GroupOperation)
  deriving Repr, DecidableEq

/-- An operation on a registry, and what it came to. -/
structure RegistryEvent where
  operation : RegistryOperation
  outcome : Except Fault Answer

/-- A command that was added, with the index that was answered. -/
structure Addition where
  index : CommandIndex
  typeName : String
  placeholders : List Placeholder
  deriving Repr, DecidableEq

/-- The type and the placeholders of the command. -/
def Addition.entry (addition : Addition) : String × List Placeholder :=
  (addition.typeName, addition.placeholders)

namespace RegistryEvent

/-- The name of the group that an event has created, if it has created one. -/
def created? (event : RegistryEvent) : Option GroupName :=
  match event.operation, event.outcome with
  | .create name, .ok _ => some name
  | _, _ => none

/-- The command that an event has added to the group of a name, if it has added one. -/
def addition? (name : GroupName) (event : RegistryEvent) : Option Addition :=
  match event.operation, event.outcome with
  | .change target (.add typeName placeholders), .ok (.added index) =>
    if target = name then some ⟨index, typeName, placeholders⟩ else none
  | _, _ => none

end RegistryEvent

namespace Registry

variable {arity : ArityLookup} {registry : Registry} {operation : RegistryOperation}
  {name other : GroupName} {group : Group}

/-- Carries out an operation. -/
def perform (arity : ArityLookup) (registry : Registry) :
    RegistryOperation → Except Fault (Registry × Answer)
  | .create name => do
    let created ← registry.create name
    return (created, .done)
  | .change name operation => do
    let group ← registry.get name
    let (changed, answer) ← group.perform arity operation
    return (registry.replace changed, answer)

/-- The registry after an operation. One that fails changes nothing. -/
def settle (arity : ArityLookup) (registry : Registry) (operation : RegistryOperation) :
    Registry :=
  match registry.perform arity operation with
  | .ok (changed, _) => changed
  | .error _ => registry

/-- An operation with what it comes to. -/
def event (arity : ArityLookup) (registry : Registry) (operation : RegistryOperation) :
    RegistryEvent :=
  ⟨operation, (registry.perform arity operation).map (·.2)⟩

/-- The registry after operations. -/
def after (arity : ArityLookup) (registry : Registry) (operations : List RegistryOperation) :
    Registry :=
  operations.foldl (settle arity) registry

/-- Operations with what they come to, one after the other. -/
def history (arity : ArityLookup) : Registry → List RegistryOperation → List RegistryEvent
  | _, [] => []
  | registry, operation :: rest =>
    registry.event arity operation :: (registry.settle arity operation).history arity rest

/-- Operations may be carried out in two parts. -/
theorem after_append (registry : Registry) (first second : List RegistryOperation) :
    registry.after arity (first ++ second) = (registry.after arity first).after arity second :=
  List.foldl_append

/-- A history leaves no operation out. -/
theorem operations_history (registry : Registry) (operations : List RegistryOperation) :
    (registry.history arity operations).map (·.operation) = operations := by
  induction operations generalizing registry with
  | nil => rfl
  | cons operation rest ih => exact congrArg (operation :: ·) (ih _)

/-- What an operation on a registry does: what it comes to, and the registry it leaves. -/
inductive Performed (arity : ArityLookup) (registry : Registry) :
    RegistryOperation → Except Fault Answer → Registry → Prop where
  | created {name : GroupName} (new : name ∉ registry.names) :
      Performed arity registry (.create name) (.ok .done)
        ⟨registry.groups ++ [Group.empty name]⟩
  | changed {name : GroupName} {group : Group} {operation : GroupOperation} {answer : Answer}
      (found : registry.get name = .ok group)
      (came : (group.event arity operation).outcome = .ok answer) :
      Performed arity registry (.change name operation) (.ok answer)
        (registry.replace (group.settle arity operation))
  | failed (operation : RegistryOperation) (fault : Fault) :
      Performed arity registry operation (.error fault) registry

/-- An operation does what `Performed` says. -/
theorem performed (arity : ArityLookup) (registry : Registry) (operation : RegistryOperation) :
    Performed arity registry operation (registry.event arity operation).outcome
      (registry.settle arity operation) := by
  rw [event, settle]
  cases result : registry.perform arity operation with
  | error fault => exact .failed operation fault
  | ok pair =>
    cases operation with
    | create name =>
      obtain ⟨created, made, rest⟩ := bind_eq_ok_iff.mp result
      cases rest
      have new := (names_of_create made).1
      rw [create] at made
      split at made <;> cases made
      exact .created new
    | change name operation =>
      obtain ⟨group, found, rest⟩ := bind_eq_ok_iff.mp result
      obtain ⟨⟨changed, answer⟩, done, rest⟩ := bind_eq_ok_iff.mp rest
      cases rest
      have came : (group.event arity operation).outcome = .ok answer := by
        rw [Group.event, done]
        rfl
      have settled : group.settle arity operation = changed := by
        rw [Group.settle, done]
      rw [← settled]
      exact .changed found came

end Registry

/-- An addition that succeeds answers the index behind all others. -/
theorem Group.answer_of_add {arity : ArityLookup} {group : Group} {typeName : String}
    {placeholders : List Placeholder} {answer : Answer}
    (came : (group.event arity (.add typeName placeholders)).outcome = .ok answer) :
    answer = .added ⟨group.commands.length⟩ := by
  have done := group.performed arity (.add typeName placeholders)
  rw [came] at done
  generalize group.settle arity (.add typeName placeholders) = changed at done
  cases done
  rfl

/-- A group keeps its name whatever is done with it. -/
theorem Group.name_settle (arity : ArityLookup) (group : Group) (operation : GroupOperation) :
    (group.settle arity operation).name = group.name := by
  have done := group.performed arity operation
  generalize group.settle arity operation = changed at done ⊢
  generalize (group.event arity operation).outcome = outcome at done
  cases done <;> rfl

namespace Registry

variable {arity : ArityLookup} {registry : Registry} {operation : RegistryOperation}
  {name other : GroupName} {group : Group}

/-- Groups are created behind all others, and keep their names. -/
theorem names_settle (arity : ArityLookup) (registry : Registry) (operation : RegistryOperation) :
    (registry.settle arity operation).names =
        registry.names ++ (registry.event arity operation).created?.toList ∧
      ∀ name ∈ (registry.event arity operation).created?, name ∉ registry.names := by
  have done := performed arity registry operation
  rw [RegistryEvent.created?]
  have named : (registry.event arity operation).operation = operation := rfl
  rw [named]
  generalize registry.settle arity operation = changed at done ⊢
  generalize (registry.event arity operation).outcome = outcome at done ⊢
  cases done with
  | @created name new =>
    refine ⟨by simp [names, Group.empty], ?_⟩
    rintro _ ⟨⟩
    exact new
  | changed found came => simp
  | failed operation fault => cases operation <;> simp

/-- The names of a registry are those from before, and behind them those that were created. -/
theorem names_after (arity : ArityLookup) (registry : Registry)
    (operations : List RegistryOperation) :
    (registry.after arity operations).names =
      registry.names ++ (registry.history arity operations).filterMap RegistryEvent.created? := by
  induction operations generalizing registry with
  | nil => simp [after, history]
  | cons operation rest ih =>
    have settled := (names_settle arity registry operation).1
    change ((registry.settle arity operation).after arity rest).names = _
    rw [ih, settled, history, List.append_assoc]
    cases created : (registry.event arity operation).created? <;> simp [created]

/-- Names stay distinct. -/
theorem nodup_names_after (distinct : registry.names.Nodup)
    (operations : List RegistryOperation) : (registry.after arity operations).names.Nodup := by
  induction operations generalizing registry with
  | nil => exact distinct
  | cons operation rest ih =>
    obtain ⟨settled, new⟩ := names_settle arity registry operation
    refine ih ?_
    rw [settled]
    cases created : (registry.event arity operation).created? with
    | none => simpa using distinct
    | some name =>
      have absent := new name created
      rw [Option.toList_some, ← List.concat_eq_append]
      exact List.Nodup.concat absent distinct

/-- A group is got exactly if it is found. -/
theorem get_eq_ok_iff : registry.get name = .ok group ↔ registry.find? name = some group := by
  rw [get]
  cases registry.find? name <;> simp

/-- A group that is added is found if none of its name stands before it. -/
theorem find?_concat (groups : List Group) (added : Group) (name : GroupName) :
    find? ⟨groups ++ [added]⟩ name =
      (find? ⟨groups⟩ name).or (if added.name = name then some added else none) := by
  rw [find?, find?, List.find?_append]
  by_cases named : added.name = name <;> simp [named]

/-- A group that is put in its place is found there, and the others as before. -/
theorem find?_replace (registry : Registry) (changed : Group) (name : GroupName) :
    (registry.replace changed).find? name =
      (registry.find? name).map fun group =>
        if group.name = changed.name then changed else group := by
  rw [find?, find?, replace, List.find?_map]
  congr 2
  funext group
  by_cases same : group.name = changed.name <;> simp [same]

/-- The types and placeholders of the commands of a group, if there is a group of the name. -/
def outlineOf (registry : Registry) (name : GroupName) : List (String × List Placeholder) :=
  ((registry.find? name).map Group.outline).getD []

/-- The outline under a name is that of the group. -/
theorem outlineOf_of_get (found : registry.get name = .ok group) :
    registry.outlineOf name = group.outline := by
  rw [outlineOf, get_eq_ok_iff.mp found]
  rfl

/-- A new group has an empty outline, as a missing one has. -/
theorem outlineOf_create (registry : Registry) (new name : GroupName) :
    outlineOf ⟨registry.groups ++ [Group.empty new]⟩ name = registry.outlineOf name := by
  rw [outlineOf, outlineOf, find?_concat]
  cases registry.find? name with
  | some group => rfl
  | none => by_cases named : new = name <;> simp [Group.empty, Group.outline, named]

/-- Putting a group in its place changes the outline under its name only. -/
theorem outlineOf_replace {changed : Group} (found : registry.get name = .ok group)
    (named : changed.name = name) (other : GroupName) :
    (registry.replace changed).outlineOf other =
      if other = name then changed.outline else registry.outlineOf other := by
  rw [outlineOf, outlineOf, find?_replace]
  cases present : registry.find? other with
  | none =>
    have different : other ≠ name := by
      rintro rfl
      simp [get_eq_ok_iff.mp found] at present
    simp [different]
  | some here =>
    have hereNamed : here.name = other := name_of_get (get_eq_ok_iff.mpr present)
    by_cases same : other = name <;> simp [same, hereNamed, named]

/-- A command is added to the group that is named, behind the others. -/
theorem outlineOf_settle (arity : ArityLookup) (registry : Registry)
    (operation : RegistryOperation) (name : GroupName) :
    (registry.settle arity operation).outlineOf name =
        registry.outlineOf name ++
          (((registry.event arity operation).addition? name).map Addition.entry).toList ∧
      ∀ addition ∈ (registry.event arity operation).addition? name,
        addition.index = ⟨(registry.outlineOf name).length⟩ := by
  have done := performed arity registry operation
  have named : (registry.event arity operation).operation = operation := rfl
  rw [RegistryEvent.addition?, named]
  generalize registry.settle arity operation = changed at done ⊢
  generalize (registry.event arity operation).outcome = outcome at done ⊢
  cases done with
  | @created new absent => simp [outlineOf_create]
  | @changed target group operation answer found came =>
    have succeeds : (group.event arity operation).succeeds := by
      rw [GroupEvent.succeeds, came]
      rfl
    have sameName : (group.settle arity operation).name = target :=
      (group.name_settle arity operation).trans (name_of_get found)
    rw [outlineOf_replace found sameName, Group.outline_settle succeeds]
    cases operation with
    | add typeName placeholders =>
      obtain rfl := Group.answer_of_add came
      by_cases same : target = name
      · subst same
        simp [outlineOf_of_get found, GroupOperation.addition?, Addition.entry, Group.outline]
      · have different : name ≠ target := fun eq => same eq.symm
        simp [same, different]
    | _ =>
      by_cases same : name = target
      · simp [same, outlineOf_of_get found, GroupOperation.addition?]
      · simp [same]
  | failed operation fault => cases operation <;> simp

/-- The commands that operations add to the group of a name, in order. -/
def additions (arity : ArityLookup) (registry : Registry) (name : GroupName)
    (operations : List RegistryOperation) : List Addition :=
  (registry.history arity operations).filterMap (RegistryEvent.addition? name)

/-- The additions to a group are that of the first operation, if it is one, and those of the
others. -/
theorem additions_cons (registry : Registry) (name : GroupName) (operation : RegistryOperation)
    (rest : List RegistryOperation) :
    registry.additions arity name (operation :: rest) =
      ((registry.event arity operation).addition? name).toList ++
        (registry.settle arity operation).additions arity name rest := by
  rw [additions, history, List.filterMap_cons]
  cases (registry.event arity operation).addition? name <;> rfl

/-- The commands of a group are those that were added, behind those it had. -/
theorem outlineOf_after (arity : ArityLookup) (registry : Registry)
    (operations : List RegistryOperation) (name : GroupName) :
    (registry.after arity operations).outlineOf name =
      registry.outlineOf name ++ (registry.additions arity name operations).map Addition.entry := by
  induction operations generalizing registry with
  | nil => simp [after, additions, history]
  | cons operation rest ih =>
    have settled := (outlineOf_settle arity registry operation name).1
    change ((registry.settle arity operation).after arity rest).outlineOf name = _
    rw [ih, settled, additions_cons, List.map_append, List.append_assoc]
    cases (registry.event arity operation).addition? name <;> rfl

/-- The indices that are answered go on from those that a group had. -/
theorem positions_additions (arity : ArityLookup) (registry : Registry)
    (operations : List RegistryOperation) (name : GroupName) :
    (registry.additions arity name operations).map (·.index.position) =
      List.range' (registry.outlineOf name).length
        (registry.additions arity name operations).length := by
  induction operations generalizing registry with
  | nil => rfl
  | cons operation rest ih =>
    obtain ⟨settled, answered⟩ := outlineOf_settle arity registry operation name
    rw [additions_cons, List.map_append, ih, settled]
    cases added : (registry.event arity operation).addition? name with
    | none => simp
    | some addition =>
      have here := answered addition added
      simp [here, List.range'_succ]

/-- In a registry that operations have built, an addition has answered its place, and a command is
there that has its type and placeholders. -/
theorem command?_of_addition {operations : List RegistryOperation}
    (found : (empty.after arity operations).get name = .ok group) {position : Nat}
    {addition : Addition}
    (isAddition : (empty.additions arity name operations)[position]? = some addition) :
    addition.index = ⟨position⟩ ∧
      ∃ command, group.command? addition.index = some command ∧
        command.typeName = addition.typeName ∧ command.placeholders = addition.placeholders := by
  have positions := positions_additions arity empty operations name
  have within := (List.getElem?_eq_some_iff.mp isAddition).1
  have answered : addition.index = ⟨position⟩ := by
    have here := congrArg (·[position]?) positions
    simp only [List.getElem?_map, isAddition, Option.map_some, List.getElem?_range' within] at here
    obtain ⟨index, typeName, placeholders⟩ := addition
    obtain ⟨answer⟩ := index
    simpa [outlineOf, empty, find?] using here
  have outline : group.outline = (empty.additions arity name operations).map Addition.entry := by
    rw [← outlineOf_of_get found, outlineOf_after]
    rfl
  have entry : group.outline[position]? = some addition.entry := by
    rw [outline, List.getElem?_map, isAddition]
    rfl
  rw [Group.outline, List.getElem?_map, Option.map_eq_some_iff] at entry
  obtain ⟨command, isCommand, same⟩ := entry
  obtain ⟨typeName, placeholders⟩ := Prod.mk.inj same
  exact ⟨answered, command, answered ▸ isCommand, typeName, placeholders⟩

/-- A group has as many commands as were added to it. -/
theorem length_additions {operations : List RegistryOperation}
    (found : (empty.after arity operations).get name = .ok group) :
    (empty.additions arity name operations).length = group.commands.length := by
  have outline := outlineOf_after arity empty operations name
  rw [outlineOf_of_get found] at outline
  simpa [Group.outline, outlineOf, empty, find?] using congrArg List.length outline.symm

/-- A group whose name is there is got. -/
theorem exists_get_of_mem_names (member : name ∈ registry.names) :
    ∃ group, registry.get name = .ok group := by
  obtain ⟨group, found⟩ := Option.isSome_iff_exists.mp (contains_iff_mem_names.mpr member)
  exact ⟨group, get_eq_ok_iff.mpr found⟩

/-- The name of a group that is got is there. -/
theorem mem_names_of_get (found : registry.get name = .ok group) : name ∈ registry.names :=
  contains_iff_mem_names.mp (Option.isSome_of_eq_some (get_eq_ok_iff.mp found))

/-- A group keeps its name, and its commands keep their indices, types and placeholders. -/
theorem get_after (found : registry.get name = .ok group) (operations : List RegistryOperation) :
    ∃ grown, (registry.after arity operations).get name = .ok grown ∧
      grown.outline =
        group.outline ++ (registry.additions arity name operations).map Addition.entry := by
  have member : name ∈ (registry.after arity operations).names := by
    rw [names_after]
    exact List.mem_append_left _ (mem_names_of_get found)
  obtain ⟨grown, present⟩ := exists_get_of_mem_names member
  refine ⟨grown, present, ?_⟩
  rw [← outlineOf_of_get present, outlineOf_after, outlineOf_of_get found]

end Registry

end TimedCommands
