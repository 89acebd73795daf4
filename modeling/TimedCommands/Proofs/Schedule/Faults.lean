import TimedCommands.Proofs.Directive.Range
import TimedCommands.Proofs.Group.Resolution
import TimedCommands.Proofs.Schedule.Firing

/-!
# Faults that depend on the state

Some faults come from a directive alone and can be known before a run. The others depend on
what was built when it fires: a group, a command, a slot or a binding is missing, references
run in a circle, or a progression runs out of numbers. `FailsByState` says that an operation
has no faults but these; it holds of a sequence of operations if it holds of each.

A directive in range that creates no group of a known name fails in this way only
(`fire_failsByState`), and so does every repetition (`resolve_failsByState`).
-/

namespace TimedCommands

/-- Whether a fault depends on what was built before. -/
def Fault.isStateDependent : Fault → Bool
  | groupNotFound _ => true
  | unknownSlot _ => true
  | commandNotFound _ => true
  | unboundSlot _ => true
  | cyclicReference _ => true
  | sequenceOverflow _ _ => true
  | _ => false

/-- Whether a fault comes from the slots of a group alone. -/
def Fault.isSlotFault : Fault → Bool
  | unknownSlot _ => true
  | unboundSlot _ => true
  | cyclicReference _ => true
  | sequenceOverflow _ _ => true
  | _ => false

/-- A fault of a slot depends on what has been built. -/
theorem Fault.isStateDependent_of_isSlotFault {fault : Fault} (ofSlot : fault.isSlotFault) :
    fault.isStateDependent := by
  cases fault <;> first | rfl | cases ofSlot

/-- An operation that fails, if at all, with a fault that depends on what was built before. -/
def FailsByState {α : Type} (outcome : Except Fault α) : Prop :=
  ∀ fault, outcome = .error fault → fault.isStateDependent

namespace FailsByState

variable {α β : Type} {outcome : Except Fault α}

/-- What succeeds has no fault to depend on anything. -/
theorem ok (value : α) : FailsByState (.ok value : Except Fault α) := nofun

/-- A fault that depends on the state is one that is allowed. -/
theorem error {fault : Fault} (depends : fault.isStateDependent) :
    FailsByState (.error fault : Except Fault α) := by
  rintro _ ⟨⟩
  exact depends

/-- Two operations fail by the state if each of them does. -/
theorem bind {next : α → Except Fault β} (first : FailsByState outcome)
    (rest : ∀ value, FailsByState (next value)) : FailsByState (outcome >>= next) := by
  intro fault failed
  rcases bind_eq_error_iff.mp failed with failed | ⟨value, -, failed⟩
  · exact first fault failed
  · exact rest value fault failed

/-- A change for each entry fails by the state if every change does. -/
theorem foldlM {change : β → α → Except Fault β}
    (each : ∀ state entry, FailsByState (change state entry)) (entries : List α) (state : β) :
    FailsByState (entries.foldlM change state) := by
  induction entries generalizing state with
  | nil => exact ok state
  | cons entry rest ih =>
    rw [List.foldlM_cons]
    exact (each state entry).bind ih

/-- A check of each entry fails by the state if every check does. -/
theorem forM {check : α → Except Fault Unit} {entries : List α}
    (each : ∀ entry ∈ entries, FailsByState (check entry)) : FailsByState (entries.forM check) := by
  rw [List.forM_eq_forM]
  induction entries with
  | nil => exact ok ()
  | cons entry rest ih =>
    rw [List.forM_cons]
    exact (each entry (by simp)).bind fun _ => ih fun other member => each other (by simp [member])

end FailsByState

namespace Group

/-- Binding a slot fails only because the group does not have it. -/
theorem bind_failsByState (group : Group) (slot : SlotName) (binding : Binding) :
    FailsByState (group.bind slot binding) := by
  rw [Group.bind]
  split
  · exact .ok _
  · exact .error rfl

/-- Toggling a command fails only because the group does not have it. -/
theorem toggle_failsByState (group : Group) (index : CommandIndex) :
    FailsByState (group.toggle index) := by
  rw [toggle]
  split
  · exact .error rfl
  · exact .ok _

/-- Switching a command fails only because the group does not have it. -/
theorem setEnabled_failsByState (group : Group) (index : CommandIndex) (enabled : Bool) :
    FailsByState (group.setEnabled index enabled) := by
  rw [setEnabled]
  split
  · exact .error rfl
  · exact .ok _

/-- A command of a known type with distinct placeholders of the right number can be added to
any group. -/
theorem add_failsByState (group : Group) {arity : ArityLookup} {typeName : String}
    {placeholders : List Placeholder} (known : arity typeName = some placeholders.length)
    (distinct : placeholders.Nodup) : FailsByState (group.add arity typeName placeholders) := by
  have unrepeated : firstRepeated? [] placeholders = none :=
    firstRepeated?_eq_none_iff.mpr ⟨distinct, by simp⟩
  simp only [add, known, unrepeated, ne_eq, not_true_eq_false, ↓reduceIte]
  exact .ok _

/-- A slot that does not evaluate is to blame, or one that its references lead to. -/
theorem isSlotFault_of_evaluate {group : Group} {slot : SlotName} {iteration : Nat} {fault : Fault}
    (failed : group.evaluate slot iteration = .error fault) : fault.isSlotFault := by
  rcases endsAt_or_revisits group slot with ⟨last, ends⟩ | revisits
  · obtain ⟨outcome, gives⟩ := exists_gives ends.stops iteration
    rw [evaluate_of_endsAt ends gives] at failed
    subst failed
    cases gives <;> rfl
  · obtain ⟨path, looped⟩ := evaluate_of_endless
      (fun last ends => not_revisits_of_endsAt ends revisits) iteration
    rw [looped] at failed
    cases failed
    rfl

/-- A group fails to resolve by one of its slots only. -/
theorem isSlotFault_of_resolve {group : Group} {iteration : Nat} {fault : Fault}
    (failed : group.resolve iteration = .error fault) : fault.isSlotFault := by
  rcases resolveCommands_spec remembers_nil group.indexed with
    ⟨resolved, succeeds, -⟩ | ⟨first, fails, before, slot, after, -, -, evaluates⟩
  · cases succeeds.symm.trans failed
  · cases fails.symm.trans failed
    exact isSlotFault_of_evaluate evaluates

/-- Resolving a group fails only because of how its slots are bound. -/
theorem resolve_failsByState (group : Group) (iteration : Nat) :
    FailsByState (group.resolve iteration) :=
  fun _ failed => Fault.isStateDependent_of_isSlotFault (isSlotFault_of_resolve failed)

end Group

/-- Getting a group fails only because it has not been created. -/
theorem Registry.get_failsByState (registry : Registry) (name : GroupName) :
    FailsByState (registry.get name) := by
  rw [get]
  split
  · exact .error rfl
  · exact .ok _

namespace RunState

/-- An index in range is accepted, whatever the state. -/
theorem checkIndex_failsByState {raw : Int64} (inRange : IsCount raw) :
    FailsByState (checkIndex raw) := by
  obtain ⟨index, denoted⟩ := Option.isSome_iff_exists.mp (isSome_ofRaw?_iff.mpr inRange)
  rw [checkIndex, denoted]
  exact .ok index

/-- A slot whose index is in range is accepted, whatever the state. -/
theorem checkSlot_failsByState {target : RawSlot} (inRange : IsCount target.command) :
    FailsByState (checkSlot target) :=
  (checkIndex_failsByState inRange).bind fun _ => .ok _

/-- A number of repetitions in range is accepted, whatever the state. -/
theorem checkTotal_failsByState {raw : Int64} (inRange : IsCount raw) :
    FailsByState (checkTotal raw) := by
  obtain ⟨positive, fits⟩ := inRange
  rw [checkTotal, if_pos ⟨positive, fits⟩]
  exact .ok _

/-- A period that is not negative is accepted, whatever the state. -/
theorem checkPeriod_failsByState {raw : Int64} (notNegative : 0 ≤ raw.toInt) :
    FailsByState (checkPeriod raw) := by
  rw [checkPeriod, if_pos notNegative]
  exact .ok _

/-- The bounds of a progression are accepted, whatever the state. -/
theorem checkBounds_failsByState {initial increment : Value}
    (numeric : (Progression.ofValues? initial increment).isSome) :
    FailsByState (checkBounds initial increment) := by
  obtain ⟨rule, between⟩ := Option.isSome_iff_exists.mp numeric
  rw [checkBounds, between]
  exact .ok rule

/-- A lattice in range is accepted, whatever the state. -/
theorem checkLattice_failsByState {rank : Rank} {spec : LatticeSpec}
    (inRange : spec.InRange rank) : FailsByState (checkLattice rank spec) := by
  obtain ⟨bindings, described⟩ := inRange.exists_axisBindings
  rw [checkLattice, described]
  refine .bind (.forM fun target member => ?_) fun _ => .ok bindings
  exact (checkIndex_failsByState (inRange.indices target member)).bind fun _ => .ok ()

/-- That a slot is not declared depends on the group. -/
theorem checkDeclared_failsByState (group : Group) (slots : List SlotName) :
    FailsByState (checkDeclared group slots) := by
  rw [checkDeclared]
  split
  · exact .error rfl
  · exact .ok ()

variable {arity : ArityLookup} {state : RunState}

/-- Binding a slot of a named group fails only by the state. -/
theorem bindSlot_failsByState (state : RunState) (name : GroupName) (slot : SlotName)
    (binding : Binding) : FailsByState (state.bindSlot name slot binding) :=
  (state.registry.get_failsByState name).bind fun group =>
    (group.bind_failsByState slot binding).bind fun _ => .ok _

/-- Binding a lattice in range fails only by the state. -/
theorem bindLattice_failsByState (state : RunState) (name : GroupName) {rank : Rank}
    {spec : LatticeSpec} (inRange : spec.InRange rank) :
    FailsByState (state.bindLattice name rank spec) :=
  (checkLattice_failsByState inRange).bind fun _ =>
    (state.registry.get_failsByState name).bind fun group =>
      (checkDeclared_failsByState group _).bind fun _ =>
        (FailsByState.foldlM (fun group _ => group.bind_failsByState _ _) _ _).bind fun _ => .ok _

/-- Creating a group of a new name does not fail. -/
theorem create_failsByState {registry : Registry} {name : GroupName}
    (new : name ∉ registry.names) : FailsByState (registry.create name) := by
  have absent : ¬ registry.contains name := by rwa [Registry.contains_iff_mem_names]
  rw [Registry.create, if_neg absent]
  exact .ok _

/-- A directive in range fails only by the state, unless it creates a group that exists. -/
theorem fire_failsByState {directive : Directive} (inRange : directive.action.InRange arity)
    (new : directive.action = .createGroup → directive.group ∉ state.registry.names) :
    FailsByState (state.fire arity directive) := by
  obtain ⟨time, name, action⟩ := directive
  have group := state.registry.get_failsByState name
  cases action with
  | createGroup => exact (create_failsByState (new rfl)).bind fun _ => .ok _
  | addCommand typeName placeholders =>
    obtain ⟨known, distinct⟩ := inRange
    exact group.bind fun group => (group.add_failsByState known distinct).bind fun _ => .ok _
  | bindConstant target value =>
    exact (checkSlot_failsByState inRange).bind fun _ =>
      (state.bindSlot_failsByState _ _ _).bind fun _ => .ok _
  | bindSequence target initial increment =>
    obtain ⟨inRange, numeric⟩ := inRange
    exact (checkSlot_failsByState inRange).bind fun _ =>
      (checkBounds_failsByState numeric).bind fun _ =>
        (state.bindSlot_failsByState _ _ _).bind fun _ => .ok _
  | bindArgument target source =>
    obtain ⟨inRange, sourceInRange⟩ := inRange
    exact (checkSlot_failsByState inRange).bind fun _ =>
      (checkSlot_failsByState sourceInRange).bind fun _ =>
        (state.bindSlot_failsByState _ _ _).bind fun _ => .ok _
  | bindLattice rank spec => exact state.bindLattice_failsByState name inRange
  | toggleCommand command =>
    exact (checkIndex_failsByState inRange).bind fun index =>
      group.bind fun group => (group.toggle_failsByState index).bind fun _ => .ok _
  | toggleAll => exact group.bind fun _ => .ok _
  | switchCommand enabled command =>
    exact (checkIndex_failsByState inRange).bind fun index =>
      group.bind fun group => (group.setEnabled_failsByState index enabled).bind fun _ => .ok _
  | switchAll enabled => exact group.bind fun _ => .ok _
  | executeSequence total period =>
    obtain ⟨inRange, notNegative⟩ := inRange
    exact group.bind fun _ => (checkTotal_failsByState inRange).bind fun _ =>
      (checkPeriod_failsByState notNegative).bind fun _ => .ok _

end RunState

end TimedCommands
