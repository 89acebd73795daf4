import TimedCommands.Proofs.Outcome
import TimedCommands.Schedule.Firing

/-!
# What firing does

What a firing that succeeds does is written down as one rule for each kind of directive
(`fire_eq_ok_iff`), and everything else is read off the rules. It is one of three things
(`fired_of_fire`): it creates the group it names, it puts a changed group in the place of that
group, under the same name, or it starts a sequence behind all others. The sequences that were
started before have no influence (`fire_behind`), so what a list of directives builds can be told
apart from the state it is built on (`build_behind`).
-/

namespace TimedCommands

/-- The sequence that a directive starts, if it starts one. -/
def Directive.sequence? (directive : Directive) : Option ScheduledSequence :=
  match directive.action with
  | .executeSequence total period =>
    some (.begin directive.group total.toInt.toNat period.toInt.toNat directive.time)
  | _ => none

/-- A directive starts a sequence of its group at its time, of which nothing is behind. -/
theorem Directive.start_of_sequence? {directive : Directive} {sequence : ScheduledSequence}
    (starts : directive.sequence? = some sequence) :
    sequence.group = directive.group ∧ sequence.start = directive.time ∧ sequence.completed = 0 := by
  unfold sequence? at starts
  split at starts <;> cases starts
  exact ⟨rfl, rfl, rfl⟩

namespace Group

variable {group other : Group}

/-- A group keeps its name when a command is added. -/
theorem name_of_add {arity : ArityLookup} {typeName : String} {placeholders : List Placeholder}
    {index : CommandIndex} (added : group.add arity typeName placeholders = .ok (other, index)) :
    other.name = group.name := by
  unfold add at added
  split at added
  · cases added
  · split at added
    · cases added
    · split at added <;> cases added
      rfl

/-- A group keeps its name when a slot is bound. -/
theorem name_of_bind {slot : SlotName} {binding : Binding}
    (bound : group.bind slot binding = .ok other) : other.name = group.name := by
  rw [bind] at bound
  split at bound <;> cases bound
  rfl

/-- A group keeps its name when axes are bound. -/
theorem name_of_bindAll {bindings : List LatticeSpec.AxisBinding}
    (bound : bindings.foldlM (fun group binding =>
      group.bind binding.slot (.coordinate binding.coordinate)) group = .ok other) :
    other.name = group.name := by
  induction bindings generalizing group with
  | nil =>
    cases bound
    rfl
  | cons binding rest ih =>
    rw [List.foldlM_cons] at bound
    obtain ⟨next, first, later⟩ := bind_eq_ok_iff.mp bound
    rw [ih later, name_of_bind first]

/-- A group keeps its name when a command is switched. -/
theorem name_of_setEnabled {index : CommandIndex} {enabled : Bool}
    (set : group.setEnabled index enabled = .ok other) : other.name = group.name := by
  rw [setEnabled] at set
  split at set <;> cases set
  rfl

/-- A group keeps its name when a command is toggled. -/
theorem name_of_toggle {index : CommandIndex} {enabled : Bool}
    (toggled : group.toggle index = .ok (other, enabled)) : other.name = group.name := by
  rw [toggle] at toggled
  split at toggled <;> cases toggled
  rfl

end Group

namespace Registry

variable {registry created : Registry} {name : GroupName}

/-- A group is found under its own name. -/
theorem name_of_get {group : Group} (found : registry.get name = .ok group) :
    group.name = name := by
  rw [get] at found
  cases present : registry.find? name with
  | none => simp [present] at found
  | some other =>
    obtain rfl : other = group := by simpa [present] using found
    have same := List.find?_some present
    exact of_decide_eq_true same

/-- Putting a group in its place leaves the names of a registry as they are. -/
@[simp] theorem names_replace (registry : Registry) (group : Group) :
    (registry.replace group).names = registry.names := by
  simp only [replace, names, List.map_map]
  refine List.map_congr_left fun other _ => ?_
  by_cases same : other.name = group.name <;> simp [same]

/-- A changed group is found in the place of the one of its name. -/
theorem get_replace {group changed : Group} (found : registry.get name = .ok group)
    (same : changed.name = name) : (registry.replace changed).get name = .ok changed := by
  subst same
  obtain ⟨groups⟩ := registry
  rw [get] at found ⊢
  have replaced : find? (replace ⟨groups⟩ changed) changed.name = some changed := by
    rw [find?, replace]
    induction groups with
    | nil => cases found
    | cons other rest ih =>
      by_cases named : other.name = changed.name
      · simp [named]
      · simpa [named] using ih (by simpa [find?, named] using found)
  rw [replaced]

/-- Of two groups of one name that are put in its place, the second stays. -/
theorem replace_replace {first second : Group} (same : first.name = second.name)
    (registry : Registry) : (registry.replace first).replace second = registry.replace second := by
  simp only [replace, List.map_map]
  congr 1
  refine List.map_congr_left fun other _ => ?_
  by_cases named : other.name = second.name <;> simp [same, named]

/-- A registry contains a name if it is among its names. -/
theorem contains_iff_mem_names : registry.contains name = true ↔ name ∈ registry.names := by
  simp [contains, find?, names]

/-- A group that is made has a new name, which stands behind the others. -/
theorem names_of_create (made : registry.create name = .ok created) :
    name ∉ registry.names ∧ created.names = registry.names ++ [name] := by
  rw [create] at made
  split at made
  case isTrue => cases made
  case isFalse absent =>
    cases made
    exact ⟨by rwa [contains_iff_mem_names] at absent, by simp [names, Group.empty]⟩

end Registry

namespace RunState

variable {arity : ArityLookup} {state changed : RunState} {directive : Directive}
  {effects : List Effect}

/-- A state in which further sequences were started before all others. -/
def behind (earlier : List ScheduledSequence) (state : RunState) : RunState :=
  { state with sequences := earlier ++ state.sequences }

/-- Sequences that were started before are no part of the groups. -/
@[simp] theorem registry_behind (earlier : List ScheduledSequence) (state : RunState) :
    (state.behind earlier).registry = state.registry := rfl

/-- Putting a group in its place has nothing to do with the sequences. -/
@[simp] theorem replace_behind (earlier : List ScheduledSequence) (state : RunState)
    (group : Group) : (state.behind earlier).replace group = (state.replace group).behind earlier :=
  rfl

/-- Binding a slot has nothing to do with the sequences. -/
theorem bindSlot_behind (earlier : List ScheduledSequence) (state : RunState) (name : GroupName)
    (slot : SlotName) (binding : Binding) :
    (state.behind earlier).bindSlot name slot binding =
      (state.bindSlot name slot binding).map (behind earlier) := by
  simp [bindSlot, map_bind]

/-- Binding a lattice has nothing to do with the sequences. -/
theorem bindLattice_behind (earlier : List ScheduledSequence) (state : RunState)
    (name : GroupName) (rank : Rank) (spec : LatticeSpec) :
    (state.behind earlier).bindLattice name rank spec =
      (state.bindLattice name rank spec).map fun (changed, effects) =>
        (changed.behind earlier, effects) := by
  simp [bindLattice, map_bind]

/-- Sequences that were started earlier have no influence on a firing. -/
theorem fire_behind (earlier : List ScheduledSequence) (state : RunState)
    (directive : Directive) :
    (state.behind earlier).fire arity directive =
      (state.fire arity directive).map fun (changed, effects) =>
        (changed.behind earlier, effects) := by
  obtain ⟨time, name, action⟩ := directive
  cases action <;> simp [fire, map_bind, bind_map, bindSlot_behind, bindLattice_behind]
  case createGroup => rfl
  case executeSequence => simp [behind]

/-- What a successful firing of a directive does to a state. -/
inductive Fired (state : RunState) (directive : Directive) : RunState → Prop where
  | created {registry : Registry} (creates : directive.action = .createGroup)
      (made : state.registry.create directive.group = .ok registry) :
      Fired state directive { state with registry }
  | edited {group : Group} (other : Group) (keeps : directive.action ≠ .createGroup)
      (starts : directive.sequence? = none)
      (found : state.registry.get directive.group = .ok group)
      (named : other.name = directive.group) :
      Fired state directive (state.replace other)
  | scheduled {group : Group} {sequence : ScheduledSequence}
      (starts : directive.sequence? = some sequence)
      (found : state.registry.get directive.group = .ok group) :
      Fired state directive { state with sequences := state.sequences ++ [sequence] }

/-- A number of repetitions is accepted if it is at least one and fits 32 bits. -/
theorem checkTotal_eq_ok_iff {raw : Int64} {total : Nat} :
    checkTotal raw = .ok total ↔
      (1 ≤ raw.toInt ∧ raw.toInt ≤ maxCount) ∧ total = raw.toInt.toNat := by
  rw [checkTotal]
  split
  · next inRange => rw [Except.ok.injEq, eq_comm, and_iff_right inRange]
  · next outside => exact iff_of_false nofun fun holds => outside holds.1

/-- A period is accepted if it is not negative. -/
theorem checkPeriod_eq_ok_iff {raw : Int64} {period : Nat} :
    checkPeriod raw = .ok period ↔ 0 ≤ raw.toInt ∧ period = raw.toInt.toNat := by
  rw [checkPeriod]
  split
  · next inRange => rw [Except.ok.injEq, eq_comm, and_iff_right inRange]
  · next outside => exact iff_of_false nofun fun holds => outside holds.1

/-- What each kind of directive does when it is carried out: the operations that succeed, the state
that they leave, and the effects. Every other result about a firing that succeeds is read off these
rules. -/
inductive CarriesOut (arity : ArityLookup) (state : RunState) :
    Directive → RunState → List Effect → Prop where
  | createGroup {time : Time} {name : GroupName} {registry : Registry}
      (made : state.registry.create name = .ok registry) :
      CarriesOut arity state ⟨time, name, .createGroup⟩ { state with registry } [.groupCreated]
  | addCommand {time : Time} {name : GroupName} {typeName : String}
      {placeholders : List Placeholder} {group extended : Group} {index : CommandIndex}
      (found : state.registry.get name = .ok group)
      (added : group.add arity typeName placeholders = .ok (extended, index)) :
      CarriesOut arity state ⟨time, name, .addCommand typeName placeholders⟩
        (state.replace extended) [.commandAdded index typeName]
  | bindConstant {time : Time} {name : GroupName} {target : RawSlot} {value : Value}
      {slot : SlotName} {group bound : Group} (checked : checkSlot target = .ok slot)
      (found : state.registry.get name = .ok group)
      (binds : group.bind slot (.constant value) = .ok bound) :
      CarriesOut arity state ⟨time, name, .bindConstant target value⟩ (state.replace bound)
        [.slotBound slot]
  | bindSequence {time : Time} {name : GroupName} {target : RawSlot} {initial increment : Value}
      {slot : SlotName} {rule : Progression} {group bound : Group}
      (checked : checkSlot target = .ok slot) (between : checkBounds initial increment = .ok rule)
      (found : state.registry.get name = .ok group)
      (binds : group.bind slot (.progression rule) = .ok bound) :
      CarriesOut arity state ⟨time, name, .bindSequence target initial increment⟩
        (state.replace bound) [.slotBound slot]
  | bindArgument {time : Time} {name : GroupName} {target source : RawSlot}
      {slot origin : SlotName} {group bound : Group} (checked : checkSlot target = .ok slot)
      (checkedSource : checkSlot source = .ok origin)
      (found : state.registry.get name = .ok group)
      (binds : group.bind slot (.reference origin) = .ok bound) :
      CarriesOut arity state ⟨time, name, .bindArgument target source⟩ (state.replace bound)
        [.referenceBound slot origin]
  | bindLattice {time : Time} {name : GroupName} {rank : Rank} {spec : LatticeSpec}
      {bindings : List LatticeSpec.AxisBinding} {group bound : Group}
      (checked : checkLattice rank spec = .ok bindings)
      (found : state.registry.get name = .ok group)
      (declared : checkDeclared group (bindings.map (·.slot)) = .ok ())
      (binds : bindings.foldlM (fun group binding =>
        group.bind binding.slot (.coordinate binding.coordinate)) group = .ok bound) :
      CarriesOut arity state ⟨time, name, .bindLattice rank spec⟩ (state.replace bound)
        (bindings.map fun binding => .axisBound binding.slot binding.coordinate.axis)
  | toggleCommand {time : Time} {name : GroupName} {command : Int64} {index : CommandIndex}
      {group toggled : Group} {enabled : Bool} (checked : checkIndex command = .ok index)
      (found : state.registry.get name = .ok group)
      (toggles : group.toggle index = .ok (toggled, enabled)) :
      CarriesOut arity state ⟨time, name, .toggleCommand command⟩ (state.replace toggled)
        [.commandToggled index enabled]
  | toggleAll {time : Time} {name : GroupName} {group : Group}
      (found : state.registry.get name = .ok group) :
      CarriesOut arity state ⟨time, name, .toggleAll⟩ (state.replace group.toggleAll)
        [.commandsToggled group.commands.length]
  | switchCommand {time : Time} {name : GroupName} {enabled : Bool} {command : Int64}
      {index : CommandIndex} {group switched : Group} (checked : checkIndex command = .ok index)
      (found : state.registry.get name = .ok group)
      (switches : group.setEnabled index enabled = .ok switched) :
      CarriesOut arity state ⟨time, name, .switchCommand enabled command⟩ (state.replace switched)
        [.commandSwitched index enabled]
  | switchAll {time : Time} {name : GroupName} {enabled : Bool} {group : Group}
      (found : state.registry.get name = .ok group) :
      CarriesOut arity state ⟨time, name, .switchAll enabled⟩
        (state.replace (group.setAllEnabled enabled))
        [.commandsSwitched group.commands.length enabled]
  | executeSequence {time : Time} {name : GroupName} {total period : Int64} {group : Group}
      {repetitions spacing : Nat} (found : state.registry.get name = .ok group)
      (counted : checkTotal total = .ok repetitions) (spaced : checkPeriod period = .ok spacing) :
      CarriesOut arity state ⟨time, name, .executeSequence total period⟩
        { state with
          sequences := state.sequences ++ [.begin name repetitions spacing time] }
        [.sequenceScheduled repetitions spacing time]

/-- A slot is bound in the group of a name if there is one, and the group takes the binding. -/
theorem bindSlot_eq_ok_iff {name : GroupName} {slot : SlotName} {binding : Binding} :
    state.bindSlot name slot binding = .ok changed ↔
      ∃ group bound, state.registry.get name = .ok group ∧ group.bind slot binding = .ok bound ∧
        changed = state.replace bound := by
  simp only [bindSlot, bind_eq_ok_iff, pure_eq_ok, Except.ok.injEq, exists_and_left,
    @eq_comm _ _ changed]

/-- A directive fires if the rule of its kind applies, and does what the rule says. -/
theorem fire_eq_ok_iff :
    state.fire arity directive = .ok (changed, effects) ↔
      CarriesOut arity state directive changed effects := by
  constructor
  · intro fired
    obtain ⟨time, name, action⟩ := directive
    cases action with
    | createGroup =>
      obtain ⟨registry, made, rest⟩ := bind_eq_ok_iff.mp fired
      cases rest
      exact .createGroup made
    | addCommand typeName placeholders =>
      obtain ⟨group, found, rest⟩ := bind_eq_ok_iff.mp fired
      obtain ⟨⟨extended, index⟩, added, rest⟩ := bind_eq_ok_iff.mp rest
      cases rest
      exact .addCommand found added
    | bindConstant target value =>
      obtain ⟨slot, checked, rest⟩ := bind_eq_ok_iff.mp fired
      obtain ⟨after, bound, rest⟩ := bind_eq_ok_iff.mp rest
      obtain ⟨group, other, found, binds, rfl⟩ := bindSlot_eq_ok_iff.mp bound
      cases rest
      exact .bindConstant checked found binds
    | bindSequence target initial increment =>
      obtain ⟨slot, checked, rest⟩ := bind_eq_ok_iff.mp fired
      obtain ⟨rule, between, rest⟩ := bind_eq_ok_iff.mp rest
      obtain ⟨after, bound, rest⟩ := bind_eq_ok_iff.mp rest
      obtain ⟨group, other, found, binds, rfl⟩ := bindSlot_eq_ok_iff.mp bound
      cases rest
      exact .bindSequence checked between found binds
    | bindArgument target source =>
      obtain ⟨slot, checked, rest⟩ := bind_eq_ok_iff.mp fired
      obtain ⟨origin, checkedSource, rest⟩ := bind_eq_ok_iff.mp rest
      obtain ⟨after, bound, rest⟩ := bind_eq_ok_iff.mp rest
      obtain ⟨group, other, found, binds, rfl⟩ := bindSlot_eq_ok_iff.mp bound
      cases rest
      exact .bindArgument checked checkedSource found binds
    | bindLattice rank spec =>
      obtain ⟨bindings, checked, rest⟩ := bind_eq_ok_iff.mp fired
      obtain ⟨group, found, rest⟩ := bind_eq_ok_iff.mp rest
      obtain ⟨declared, rest⟩ := check_bind_eq_ok_iff.mp rest
      obtain ⟨bound, binds, rest⟩ := bind_eq_ok_iff.mp rest
      cases rest
      exact .bindLattice checked found declared binds
    | toggleCommand command =>
      obtain ⟨index, checked, rest⟩ := bind_eq_ok_iff.mp fired
      obtain ⟨group, found, rest⟩ := bind_eq_ok_iff.mp rest
      obtain ⟨⟨toggled, enabled⟩, toggles, rest⟩ := bind_eq_ok_iff.mp rest
      cases rest
      exact .toggleCommand checked found toggles
    | toggleAll =>
      obtain ⟨group, found, rest⟩ := bind_eq_ok_iff.mp fired
      cases rest
      exact .toggleAll found
    | switchCommand enabled command =>
      obtain ⟨index, checked, rest⟩ := bind_eq_ok_iff.mp fired
      obtain ⟨group, found, rest⟩ := bind_eq_ok_iff.mp rest
      obtain ⟨switched, switches, rest⟩ := bind_eq_ok_iff.mp rest
      cases rest
      exact .switchCommand checked found switches
    | switchAll enabled =>
      obtain ⟨group, found, rest⟩ := bind_eq_ok_iff.mp fired
      cases rest
      exact .switchAll found
    | executeSequence total period =>
      obtain ⟨group, found, rest⟩ := bind_eq_ok_iff.mp fired
      obtain ⟨repetitions, counted, rest⟩ := bind_eq_ok_iff.mp rest
      obtain ⟨spacing, spaced, rest⟩ := bind_eq_ok_iff.mp rest
      cases rest
      exact .executeSequence found counted spaced
  · intro carriedOut
    cases carriedOut <;> simp [fire, bindSlot, RunState.bindLattice, *]

/-- A directive that fires changes one of the three things that can change, according to its
action. -/
theorem fired_of_fire (fired : state.fire arity directive = .ok (changed, effects)) :
    Fired state directive changed := by
  cases fire_eq_ok_iff.mp fired with
  | createGroup made => exact .created rfl made
  | addCommand found added =>
    exact .edited _ nofun rfl found
      ((Group.name_of_add added).trans (Registry.name_of_get found))
  | bindConstant checked found binds =>
    exact .edited _ nofun rfl found
      ((Group.name_of_bind binds).trans (Registry.name_of_get found))
  | bindSequence checked between found binds =>
    exact .edited _ nofun rfl found
      ((Group.name_of_bind binds).trans (Registry.name_of_get found))
  | bindArgument checked checkedSource found binds =>
    exact .edited _ nofun rfl found
      ((Group.name_of_bind binds).trans (Registry.name_of_get found))
  | bindLattice checked found declared binds =>
    exact .edited _ nofun rfl found
      ((Group.name_of_bindAll binds).trans (Registry.name_of_get found))
  | toggleCommand checked found toggles =>
    exact .edited _ nofun rfl found
      ((Group.name_of_toggle toggles).trans (Registry.name_of_get found))
  | toggleAll found =>
    have named := Registry.name_of_get found
    exact .edited _ nofun rfl found named
  | switchCommand checked found switches =>
    exact .edited _ nofun rfl found
      ((Group.name_of_setEnabled switches).trans (Registry.name_of_get found))
  | switchAll found =>
    have named := Registry.name_of_get found
    exact .edited _ nofun rfl found named
  | executeSequence found counted spaced =>
    rw [(checkTotal_eq_ok_iff.mp counted).2, (checkPeriod_eq_ok_iff.mp spaced).2]
    exact .scheduled rfl found

/-- A firing starts the sequence of its directive behind all others. -/
theorem sequences_of_fire (fired : state.fire arity directive = .ok (changed, effects)) :
    changed.sequences = state.sequences ++ directive.sequence?.toList := by
  cases fired_of_fire fired with
  | created creates made => simp [Directive.sequence?, creates]
  | edited other keeps starts found named => simp [replace, starts]
  | scheduled starts found => simp [starts]

/-! Directives carried out one after the other. -/

/-- The state after a directive. One that fails changes nothing. -/
def settle (arity : ArityLookup) (state : RunState) (directive : Directive) : RunState :=
  match state.fire arity directive with
  | .ok (changed, _) => changed
  | .error _ => state

/-- What directives build on a state. -/
def build (arity : ArityLookup) (state : RunState) (directives : List Directive) : RunState :=
  directives.foldl (settle arity) state

/-- Those of the directives that succeed. -/
def succeeding (arity : ArityLookup) : RunState → List Directive → List Directive
  | _, [] => []
  | state, directive :: rest =>
    match state.fire arity directive with
    | .ok (changed, _) => directive :: succeeding arity changed rest
    | .error _ => succeeding arity state rest

/-- No directives leave the state as it is. -/
@[simp] theorem build_nil (state : RunState) : state.build arity [] = state := rfl

/-- Directives fire one after the other. -/
@[simp] theorem build_cons (state : RunState) (directive : Directive) (rest : List Directive) :
    state.build arity (directive :: rest) = (state.settle arity directive).build arity rest := rfl

/-- Directives may be fired in two parts. -/
theorem build_append (state : RunState) (first second : List Directive) :
    state.build arity (first ++ second) = (state.build arity first).build arity second :=
  List.foldl_append

/-- A directive does the same behind sequences that were started before. -/
theorem settle_behind (earlier : List ScheduledSequence) (state : RunState)
    (directive : Directive) :
    (state.behind earlier).settle arity directive =
      (state.settle arity directive).behind earlier := by
  simp only [settle, fire_behind]
  cases state.fire arity directive <;> rfl

/-- What is built does not depend on the sequences that were started before. -/
theorem build_behind (earlier : List ScheduledSequence) (state : RunState)
    (directives : List Directive) :
    (state.behind earlier).build arity directives =
      (state.build arity directives).behind earlier := by
  induction directives generalizing state with
  | nil => rfl
  | cons directive rest ih => rw [build_cons, settle_behind, ih, build_cons]

/-- The directives that succeed are among those that were given. -/
theorem mem_of_mem_succeeding {state : RunState} {directives : List Directive}
    (succeeds : directive ∈ succeeding arity state directives) : directive ∈ directives := by
  induction directives generalizing state with
  | nil => exact succeeds
  | cons first rest ih =>
    rw [succeeding] at succeeds
    cases fired : state.fire arity first with
    | error fault => exact .tail _ (ih (by simpa [fired] using succeeds))
    | ok result =>
      rcases List.mem_cons.mp (by simpa [fired] using succeeds) with rfl | later
      · exact .head _
      · exact .tail _ (ih later)

/-- Directives start the sequences of those that succeed, in order. -/
theorem sequences_build (state : RunState) (directives : List Directive) :
    (state.build arity directives).sequences =
      state.sequences ++ (succeeding arity state directives).filterMap Directive.sequence? := by
  induction directives generalizing state with
  | nil => simp [succeeding]
  | cons directive rest ih =>
    rw [build_cons, ih, succeeding, settle]
    cases fired : state.fire arity directive with
    | error fault => rfl
    | ok result =>
      rw [sequences_of_fire fired]
      cases sequence : directive.sequence? <;> simp [sequence]

/-- Which directives succeed does not depend on sequences that were started before. -/
theorem succeeding_behind (earlier : List ScheduledSequence) (state : RunState)
    (directives : List Directive) :
    succeeding arity (state.behind earlier) directives = succeeding arity state directives := by
  induction directives generalizing state with
  | nil => rfl
  | cons directive rest ih =>
    simp only [succeeding, fire_behind]
    cases state.fire arity directive <;> simp [ih]

/-- A state is its registry with its sequences started before. -/
theorem behind_registry (state : RunState) :
    behind state.sequences ⟨state.registry, []⟩ = state := by
  simp [behind]

variable {left right : RunState}

/-- States with the same groups build the same groups. -/
theorem registry_build_congr (same : left.registry = right.registry)
    (directives : List Directive) :
    (left.build arity directives).registry = (right.build arity directives).registry := by
  rw [← behind_registry left, ← behind_registry right, same, build_behind, build_behind]
  rfl

/-- Which directives succeed is told by the groups. -/
theorem succeeding_congr (same : left.registry = right.registry) (directives : List Directive) :
    succeeding arity left directives = succeeding arity right directives := by
  rw [← behind_registry left, ← behind_registry right, same, succeeding_behind, succeeding_behind]

end RunState

end TimedCommands
