import TimedCommands.Proofs.Directive.Range
import TimedCommands.Proofs.Group.Binding
import TimedCommands.Proofs.Schedule.Firing
import TimedCommands.Schedule.Scheduler

/-!
# Firing in place

`RunState.fire` answers with a new state or with a fault, so a fault leaves nothing behind by its
very type. An engine that works in place has to see to that itself: each change is there as soon
as it is made, and stays if a later check fails. `InPlace.fire` carries out directives in that
way, and a lattice axis by axis. It comes to the same as `RunState.fire` in every state
(`run_fire`), since nothing is changed before the last check; what is left to show for a lattice
is that no axis fails once all of its slots are known to be declared.
-/

namespace TimedCommands

namespace RunState

/-- The bindings that a checked lattice gives are those of its axes. -/
theorem axisBindings?_of_checkLattice {spec : LatticeSpec} {rank : Rank}
    {bindings : List LatticeSpec.AxisBinding} (checked : checkLattice rank spec = .ok bindings) :
    spec.axisBindings? rank = some bindings := by
  rw [checkLattice] at checked
  obtain ⟨-, -, checked⟩ := bind_eq_ok_iff.mp checked
  cases found : spec.axisBindings? rank with
  | none => simp [found] at checked
  | some others =>
    rw [found] at checked
    exact congrArg some (Except.ok.inj checked)

/-- A lattice that passes its checks has axes to bind. -/
theorem ne_nil_of_checkLattice {spec : LatticeSpec} {rank : Rank}
    {bindings : List LatticeSpec.AxisBinding} (checked : checkLattice rank spec = .ok bindings) :
    bindings ≠ [] := by
  have axes := (LatticeSpec.aims_of_axisBindings? (axisBindings?_of_checkLattice checked)).axes
  rintro rfl
  cases rank <;> simp [Axis.all, Rank.axes] at axes

/-- The check of slots passes exactly if the group declares all of them. -/
theorem checkDeclared_eq_ok_iff {group : Group} {slots : List SlotName} :
    checkDeclared group slots = .ok () ↔ ∀ slot ∈ slots, group.declares slot := by
  rw [checkDeclared]
  cases undeclared : slots.find? fun slot => !group.declares slot with
  | none => simpa using undeclared
  | some slot =>
    have member := List.mem_of_find?_eq_some undeclared
    have failing := List.find?_some undeclared
    simp only [reduceCtorEq, false_iff]
    intro all
    simp [all slot member] at failing

/-- A lattice that succeeds binds all of its axes, and no slot but their targets. -/
theorem binding?_of_bindLattice {state after : RunState} {name : GroupName} {rank : Rank}
    {spec : LatticeSpec} {effects : List Effect}
    (succeeded : state.bindLattice name rank spec = .ok (after, effects)) :
    ∃ group bound bindings, state.registry.get name = .ok group ∧ bound.name = name ∧
      after = state.replace bound ∧ spec.Aims rank bindings ∧
      ∀ slot, bound.binding? slot =
        match bindings.reverse.find? (·.slot = slot) with
        | some last => some (some (.coordinate last.coordinate))
        | none => group.binding? slot := by
  rw [bindLattice] at succeeded
  obtain ⟨bindings, checked, succeeded⟩ := bind_eq_ok_iff.mp succeeded
  obtain ⟨group, found, succeeded⟩ := bind_eq_ok_iff.mp succeeded
  obtain ⟨passed, succeeded⟩ := check_bind_eq_ok_iff.mp succeeded
  have declared : ∀ binding ∈ bindings, group.declares binding.slot := by
    simpa using checkDeclared_eq_ok_iff.mp passed
  rw [Group.foldlM_bind_of_declares declared] at succeeded
  cases succeeded
  exact ⟨group, group.bindAxes bindings, bindings, found,
    (group.name_bindAxes bindings).trans (Registry.name_of_get found), rfl,
    LatticeSpec.aims_of_axisBindings? (axisBindings?_of_checkLattice checked),
    Group.binding?_bindAxes declared⟩

end RunState

/-- An operation on a run in place. If it fails, the changes that it has made so far remain. -/
abbrev InPlace := EStateM Fault RunState

namespace InPlace

variable {α β : Type}

/-- Goes on with what a check answers, and fails if it fails. -/
def check : Except Fault α → InPlace α
  | .ok value => pure value
  | .error fault => throw fault

/-- Finds a group. -/
def find (name : GroupName) : InPlace Group := do
  check ((← get).registry.get name)

/-- Puts a changed group in its place. -/
def store (group : Group) : InPlace Unit := modify (·.replace group)

/-- Binds a slot of a group. -/
def bindSlot (name : GroupName) (slot : SlotName) (binding : Binding) : InPlace Unit := do
  let group ← find name
  let bound ← check (group.bind slot binding)
  store bound

/-- Binds axes one after the other. -/
def bindAxes (name : GroupName) (bindings : List LatticeSpec.AxisBinding) : InPlace (List Effect) :=
  bindings.mapM fun binding => do
    bindSlot name binding.slot (.coordinate binding.coordinate)
    return .axisBound binding.slot binding.coordinate.axis

/-- Binds every axis of a lattice. -/
def bindLattice (name : GroupName) (rank : Rank) (spec : LatticeSpec) : InPlace (List Effect) := do
  let bindings ← check (RunState.checkLattice rank spec)
  let group ← find name
  check (RunState.checkDeclared group (bindings.map (·.slot)))
  bindAxes name bindings

/-- Carries out a directive at its time. -/
def fire (arity : ArityLookup) (directive : Directive) : InPlace (List Effect) :=
  let name := directive.group
  match directive.action with
  | .createGroup => do
    let state ← get
    let registry ← check (state.registry.create name)
    set { state with registry }
    return [.groupCreated]
  | .addCommand typeName placeholders => do
    let group ← find name
    let (extended, index) ← check (group.add arity typeName placeholders)
    store extended
    return [.commandAdded index typeName]
  | .bindConstant target value => do
    let slot ← check (RunState.checkSlot target)
    bindSlot name slot (.constant value)
    return [.slotBound slot]
  | .bindSequence target initial increment => do
    let slot ← check (RunState.checkSlot target)
    let rule ← check (RunState.checkBounds initial increment)
    bindSlot name slot (.progression rule)
    return [.slotBound slot]
  | .bindArgument target source => do
    let slot ← check (RunState.checkSlot target)
    let origin ← check (RunState.checkSlot source)
    bindSlot name slot (.reference origin)
    return [.referenceBound slot origin]
  | .bindLattice rank spec => bindLattice name rank spec
  | .toggleCommand command => do
    let index ← check (RunState.checkIndex command)
    let group ← find name
    let (toggled, enabled) ← check (group.toggle index)
    store toggled
    return [.commandToggled index enabled]
  | .toggleAll => do
    let group ← find name
    store group.toggleAll
    return [.commandsToggled group.commands.length]
  | .switchCommand enabled command => do
    let index ← check (RunState.checkIndex command)
    let group ← find name
    let switched ← check (group.setEnabled index enabled)
    store switched
    return [.commandSwitched index enabled]
  | .switchAll enabled => do
    let group ← find name
    store (group.setAllEnabled enabled)
    return [.commandsSwitched group.commands.length enabled]
  | .executeSequence total period => do
    let _ ← find name
    let repetitions ← check (RunState.checkTotal total)
    let spacing ← check (RunState.checkPeriod period)
    let sequence := ScheduledSequence.begin name repetitions spacing directive.time
    modify fun state => { state with sequences := state.sequences ++ [sequence] }
    return [.sequenceScheduled repetitions spacing directive.time]

/-- What an operation comes to that changes nothing unless it succeeds. -/
def allOrNothing (state : RunState) :
    Except Fault (RunState × α) → EStateM.Result Fault RunState α
  | .ok (changed, answer) => .ok answer changed
  | .error fault => .error fault state

/-- A check in front of an operation changes nothing. -/
theorem run_check_bind {state : RunState} {next : α → InPlace β}
    {rest : α → Except Fault (RunState × β)} (outcome : Except Fault α)
    (agrees : ∀ value, outcome = .ok value →
      (next value).run state = allOrNothing state (rest value)) :
    (check outcome >>= next).run state = allOrNothing state (outcome >>= rest) := by
  cases passed : outcome with
  | ok value => exact agrees value passed
  | error fault => rfl

/-- What is done in place with a group that is looked up is all or nothing, if it is so for the
group. -/
theorem run_find_bind {state : RunState} {name : GroupName} {next : Group → InPlace β}
    {rest : Group → Except Fault (RunState × β)}
    (agrees : ∀ group, state.registry.get name = .ok group →
      (next group).run state = allOrNothing state (rest group)) :
    (find name >>= next).run state = allOrNothing state (state.registry.get name >>= rest) :=
  run_check_bind (state.registry.get name) agrees

/-- Binding a slot in place is all or nothing, and then answers. -/
theorem run_bindSlot_bind (state : RunState) (name : GroupName) (slot : SlotName)
    (binding : Binding) (answer : α) :
    (bindSlot name slot binding >>= fun _ => pure answer).run state =
      allOrNothing state (state.bindSlot name slot binding >>= fun bound =>
        .ok (bound, answer)) := by
  rw [RunState.bindSlot]
  simp only [bindSlot, bind_assoc]
  refine run_find_bind fun group _ => ?_
  refine run_check_bind _ fun bound _ => ?_
  rfl

/-- An operation goes on in the state that a successful one in front of it left. -/
theorem run_bind_of_ok {first : InPlace α} {state after : RunState} {value : α}
    (succeeded : first.run state = .ok value after) (next : α → InPlace β) :
    (first >>= next).run state = (next value).run after := by
  change EStateM.bind first next state = _
  rw [EStateM.bind, show first state = .ok value after from succeeded]
  rfl

/-- A declared slot is bound in place. -/
theorem run_bindSlot_of_declares {state : RunState} {name : GroupName} {group : Group}
    {slot : SlotName} (found : state.registry.get name = .ok group)
    (declared : group.declares slot) (binding : Binding) :
    (bindSlot name slot binding).run state =
      .ok () (state.replace (group.rebind slot binding)) := by
  have read : (find name).run state = .ok group state := by
    change (check (state.registry.get name)).run state = _
    rw [found]
    rfl
  rw [bindSlot, run_bind_of_ok read, Group.bind_of_declares declared]
  rfl

/-- Axes whose slots are declared are bound without a failure in between. -/
theorem run_bindAxes {state : RunState} {name : GroupName} {group : Group}
    {bindings : List LatticeSpec.AxisBinding} (some : bindings ≠ [])
    (found : state.registry.get name = .ok group)
    (declared : ∀ binding ∈ bindings, group.declares binding.slot) :
    (bindAxes name bindings).run state =
      .ok (bindings.map fun binding => .axisBound binding.slot binding.coordinate.axis)
        (state.replace (group.bindAxes bindings)) := by
  -- Without a binding nothing is stored, while putting a group in its place would still change a
  -- state with two groups of one name; hence the list is not empty.
  induction bindings generalizing state group with
  | nil => exact absurd rfl some
  | cons binding rest ih =>
    obtain ⟨first, later⟩ := List.forall_mem_cons.mp declared
    let changed := group.rebind binding.slot (.coordinate binding.coordinate)
    have bound : (bindSlot name binding.slot (.coordinate binding.coordinate)).run state =
        .ok () (state.replace changed) := run_bindSlot_of_declares found first _
    rw [bindAxes, List.mapM_cons, bind_assoc, run_bind_of_ok bound, pure_bind]
    cases rest with
    | nil => rfl
    | cons second others =>
      have sameName : changed.name = name := by
        rw [Group.name_rebind, Registry.name_of_get found]
      have foundNext : (state.replace changed).registry.get name = .ok changed :=
        Registry.get_replace found sameName
      have declaredNext : ∀ binding ∈ second :: others, changed.declares binding.slot := by
        simpa [changed] using later
      have rebound := ih (List.cons_ne_nil _ _) foundNext declaredNext
      rw [bindAxes] at rebound
      rw [run_bind_of_ok rebound]
      have whole : (state.replace changed).replace (changed.bindAxes (second :: others)) =
          state.replace (changed.bindAxes (second :: others)) := by
        simp only [RunState.replace]
        rw [Registry.replace_replace (by simp)]
      rw [whole]
      rfl

/-- Binding a lattice in place is all or nothing, though it binds one axis after the other. -/
theorem run_bindLattice (state : RunState) (name : GroupName) (rank : Rank) (spec : LatticeSpec) :
    (bindLattice name rank spec).run state =
      allOrNothing state (state.bindLattice name rank spec) := by
  rw [bindLattice, RunState.bindLattice]
  refine run_check_bind _ fun bindings checked => ?_
  refine run_find_bind fun group found => ?_
  refine run_check_bind _ fun _ passed => ?_
  have declared : ∀ binding ∈ bindings, group.declares binding.slot := by
    simpa using RunState.checkDeclared_eq_ok_iff.mp passed
  have some : bindings ≠ [] := RunState.ne_nil_of_checkLattice checked
  rw [run_bindAxes some found declared, Group.foldlM_bind_of_declares declared]
  rfl

/-- Carried out in place, a directive does what it does otherwise, and nothing if it fails. -/
theorem run_fire (arity : ArityLookup) (state : RunState) (directive : Directive) :
    (fire arity directive).run state = allOrNothing state (state.fire arity directive) := by
  obtain ⟨time, name, action⟩ := directive
  cases action with
  | createGroup => exact run_check_bind (state.registry.create name) fun _ _ => rfl
  | addCommand typeName placeholders =>
    exact run_find_bind fun group _ => run_check_bind _ fun _ _ => rfl
  | bindConstant target value =>
    exact run_check_bind _ fun slot _ => run_bindSlot_bind ..
  | bindSequence target initial increment =>
    exact run_check_bind _ fun slot _ => run_check_bind _ fun rule _ => run_bindSlot_bind ..
  | bindArgument target source =>
    exact run_check_bind _ fun slot _ => run_check_bind _ fun origin _ => run_bindSlot_bind ..
  | bindLattice rank spec => exact run_bindLattice state name rank spec
  | toggleCommand command =>
    exact run_check_bind _ fun index _ => run_find_bind fun group _ =>
      run_check_bind _ fun _ _ => rfl
  | toggleAll => exact run_find_bind fun group _ => rfl
  | switchCommand enabled command =>
    exact run_check_bind _ fun index _ => run_find_bind fun group _ =>
      run_check_bind _ fun _ _ => rfl
  | switchAll enabled => exact run_find_bind fun group _ => rfl
  | executeSequence total period =>
    exact run_find_bind fun group _ => run_check_bind _ fun repetitions _ =>
      run_check_bind _ fun spacing _ => rfl

end InPlace

/-- A directive that fails changes nothing. Carried out in place, where every change is there at
once, it leaves the groups and sequences that the scheduler is left with; that is what was there
before if it fails. A lattice that does not fail has bound all of its axes, each at its target, and
no other slot. -/
theorem failing_directive_changes_nothing (arity : ArityLookup) (state : RunState)
    (directive : Directive) :
    let outcome := (InPlace.fire arity directive).run state
    Scheduler.handleDirective arity directive.time state directive =
      (match outcome with
        | .ok effects after => (after, .fired effects)
        | .error fault after => (after, .failed fault)) ∧
    (∀ fault after, outcome = .error fault after → after = state) ∧
    ∀ rank spec effects after, directive.action = .bindLattice rank spec →
      outcome = .ok effects after →
        ∃ group bound bindings, state.registry.get directive.group = .ok group ∧
          bound.name = directive.group ∧ after = state.replace bound ∧ spec.Aims rank bindings ∧
          ∀ slot, bound.binding? slot =
            match bindings.reverse.find? (·.slot = slot) with
            | some last => some (some (.coordinate last.coordinate))
            | none => group.binding? slot := by
  intro outcome
  have same : outcome = InPlace.allOrNothing state (state.fire arity directive) :=
    InPlace.run_fire arity state directive
  refine ⟨?_, ?_, ?_⟩
  · rw [Scheduler.handleDirective, if_neg (UInt64.lt_irrefl _), same]
    cases state.fire arity directive <;> rfl
  · intro fault after failed
    rw [same] at failed
    cases fired : state.fire arity directive with
    | ok result => simp [fired, InPlace.allOrNothing] at failed
    | error other =>
      rw [fired] at failed
      cases failed
      rfl
  · intro rank spec effects after isLattice succeeded
    have fired : state.fire arity directive = state.bindLattice directive.group rank spec := by
      rw [RunState.fire, isLattice]
    rw [same, fired] at succeeded
    cases bound : state.bindLattice directive.group rank spec with
    | ok result =>
      rw [bound] at succeeded
      cases succeeded
      exact RunState.binding?_of_bindLattice bound
    | error fault => simp [bound, InPlace.allOrNothing] at succeeded

end TimedCommands
