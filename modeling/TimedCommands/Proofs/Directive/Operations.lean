import TimedCommands.Proofs.Registry.Table
import TimedCommands.Proofs.Schedule.InPlace

/-!
# Directives as operations

What a directive does to the groups of a run are operations on their registry: one for most kinds of
directive, one for each axis of a lattice, and none to start a sequence (`registry_of_fire`). So the
registry of a run is one that operations have built, and everything holds of it that holds of
those.
-/

namespace TimedCommands

/-- The operations on a registry that a directive carries out if it succeeds. -/
def Directive.operations (directive : Directive) : List RegistryOperation :=
  let change operation := RegistryOperation.change directive.group operation
  match directive.action with
  | .createGroup => [.create directive.group]
  | .addCommand typeName placeholders => [change (.add typeName placeholders)]
  | .bindConstant target value =>
    match RunState.checkSlot target with
    | .ok slot => [change (.bind slot (.constant value))]
    | .error _ => []
  | .bindSequence target initial increment =>
    match RunState.checkSlot target, RunState.checkBounds initial increment with
    | .ok slot, .ok rule => [change (.bind slot (.progression rule))]
    | _, _ => []
  | .bindArgument target source =>
    match RunState.checkSlot target, RunState.checkSlot source with
    | .ok slot, .ok origin => [change (.bind slot (.reference origin))]
    | _, _ => []
  | .bindLattice rank spec =>
    match RunState.checkLattice rank spec with
    | .ok bindings =>
      bindings.map fun binding => change (.bind binding.slot (.coordinate binding.coordinate))
    | .error _ => []
  | .toggleCommand command =>
    match RunState.checkIndex command with
    | .ok index => [change (.toggle index)]
    | .error _ => []
  | .toggleAll => [change .toggleAll]
  | .switchCommand enabled command =>
    match RunState.checkIndex command with
    | .ok index => [change (.setEnabled index enabled)]
    | .error _ => []
  | .switchAll enabled => [change (.setAllEnabled enabled)]
  | .executeSequence _ _ => []

namespace Registry

variable {arity : ArityLookup} {registry : Registry} {name : GroupName} {group : Group}

/-- An operation that succeeds on a group puts what it leaves in the place of the group. -/
theorem after_change {operation : GroupOperation} {changed : Group} {answer : Answer}
    (found : registry.get name = .ok group)
    (done : group.perform arity operation = .ok (changed, answer)) :
    registry.after arity [.change name operation] = registry.replace changed := by
  change registry.settle arity (.change name operation) = _
  rw [settle, perform, found, ok_bind, done]
  rfl

/-- Binding a slot is one operation on its group. -/
theorem after_bind {slot : SlotName} {binding : Binding} {bound : Group}
    (found : registry.get name = .ok group) (isBound : group.bind slot binding = .ok bound) :
    registry.after arity [.change name (.bind slot binding)] = registry.replace bound :=
  after_change found (bind_eq_ok_iff.mpr ⟨bound, isBound, rfl⟩)

/-- Binding axes one after the other leaves what binding them together leaves. -/
theorem after_bindAxes {bindings : List LatticeSpec.AxisBinding} (some : bindings ≠ [])
    (found : registry.get name = .ok group)
    (declared : ∀ binding ∈ bindings, group.declares binding.slot) :
    registry.after arity (bindings.map fun binding =>
        .change name (.bind binding.slot (.coordinate binding.coordinate))) =
      registry.replace (group.bindAxes bindings) := by
  induction bindings generalizing registry group with
  | nil => exact absurd rfl some
  | cons binding rest ih =>
    obtain ⟨first, later⟩ := List.forall_mem_cons.mp declared
    let changed := group.rebind binding.slot (.coordinate binding.coordinate)
    have sameName : changed.name = name := (group.name_rebind ..).trans (name_of_get found)
    have bound : registry.after arity
        [.change name (.bind binding.slot (.coordinate binding.coordinate))] =
          registry.replace changed :=
      after_bind found (Group.bind_of_declares first _)
    rw [List.map_cons, ← List.singleton_append, after_append, bound]
    cases rest with
    | nil => rfl
    | cons second others =>
      have foundNext : (registry.replace changed).get name = .ok changed :=
        get_replace found sameName
      have declaredNext : ∀ binding ∈ second :: others, changed.declares binding.slot := by
        simpa [changed] using later
      rw [ih (List.cons_ne_nil _ _) foundNext declaredNext, replace_replace (by simp)]
      rfl

end Registry

namespace RunState

variable {arity : ArityLookup} {state changed : RunState} {directive : Directive}
  {effects : List Effect}

/-- A directive that succeeds does to the registry what its operations do. -/
theorem registry_of_fire (fired : state.fire arity directive = .ok (changed, effects)) :
    changed.registry = state.registry.after arity directive.operations := by
  cases fire_eq_ok_iff.mp fired with
  | @createGroup time name registry made =>
    change registry = state.registry.settle arity (.create name)
    rw [Registry.settle, Registry.perform, made]
    rfl
  | @addCommand time name typeName placeholders group extended index found added =>
    have done : group.perform arity (.add typeName placeholders) =
        .ok (extended, .added index) := bind_eq_ok_iff.mpr ⟨_, added, rfl⟩
    exact (Registry.after_change found done).symm
  | bindConstant checked found binds =>
    simp only [Directive.operations, checked]
    exact (Registry.after_bind found binds).symm
  | bindSequence checked between found binds =>
    simp only [Directive.operations, checked, between]
    exact (Registry.after_bind found binds).symm
  | bindArgument checked checkedSource found binds =>
    simp only [Directive.operations, checked, checkedSource]
    exact (Registry.after_bind found binds).symm
  | @bindLattice time name rank spec bindings group bound checked found passed binds =>
    have declared : ∀ binding ∈ bindings, group.declares binding.slot := by
      simpa using checkDeclared_eq_ok_iff.mp passed
    have some : bindings ≠ [] := ne_nil_of_checkLattice checked
    rw [Group.foldlM_bind_of_declares declared] at binds
    cases binds
    simp only [Directive.operations, checked]
    exact (Registry.after_bindAxes some found declared).symm
  | @toggleCommand time name command index group toggled enabled checked found toggles =>
    have done : group.perform arity (.toggle index) = .ok (toggled, .toggled enabled) :=
      bind_eq_ok_iff.mpr ⟨_, toggles, rfl⟩
    simp only [Directive.operations, checked]
    exact (Registry.after_change found done).symm
  | toggleAll found => exact (Registry.after_change found rfl).symm
  | @switchCommand time name enabled command index group switched checked found switches =>
    have done : group.perform arity (.setEnabled index enabled) = .ok (switched, .done) :=
      bind_eq_ok_iff.mpr ⟨_, switches, rfl⟩
    simp only [Directive.operations, checked]
    exact (Registry.after_change found done).symm
  | switchAll found => exact (Registry.after_change found rfl).symm
  | executeSequence found counted spaced => rfl

end RunState

end TimedCommands
