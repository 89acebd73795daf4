import TimedCommands.Directive.Basic
import TimedCommands.Proofs.Group.Chain
import TimedCommands.Proofs.Outcome

/-!
# Binding slots

Binding a declared slot cannot fail and changes that slot alone (`binding?_rebind`), so a group
declares the same slots afterwards. Axes whose slots are all declared can therefore be bound one
after the other without a failure in between (`foldlM_bind_of_declares`); of several axes that
are aimed at one slot the last one stays (`binding?_bindAxes`).
-/

namespace TimedCommands

/-- Binding a placeholder changes what is bound to it, and to no other. -/
theorem Command.slot?_bind (command : Command) (placeholder other : Placeholder)
    (binding : Binding) :
    (command.bind placeholder binding).slot? other =
      if other = placeholder then
        (command.slot? other).map fun slot => { slot with binding := some binding }
      else command.slot? other := by
  rw [slot?, slot?, bind]
  induction command.slots with
  | nil => simp
  | cons slot rest ih =>
    rw [List.map_cons, List.find?_cons, List.find?_cons, ih]
    by_cases aimed : slot.placeholder = placeholder
    · by_cases same : other = placeholder
      · simp [aimed, same]
      · have different : placeholder ≠ other := fun eq => same eq.symm
        simp [aimed, same, different]
    · by_cases found : slot.placeholder = other
      · have different : other ≠ placeholder := fun eq => aimed (found.trans eq)
        simp [found, different]
      · simp [aimed, found]

namespace Group

variable {group : Group} {slot other : SlotName} {binding : Binding}

/-- Binds a slot, if it is declared. -/
def rebind (group : Group) (slot : SlotName) (binding : Binding) : Group :=
  group.modify slot.command fun command => command.bind slot.placeholder binding

/-- A group keeps its name when a slot is bound. -/
@[simp] theorem name_rebind (group : Group) (slot : SlotName) (binding : Binding) :
    (group.rebind slot binding).name = group.name := rfl

/-- A declared slot is bound without a fault. -/
theorem bind_of_declares (declared : group.declares slot) (binding : Binding) :
    group.bind slot binding = .ok (group.rebind slot binding) :=
  if_pos declared

/-- A change at an index changes the command there, and no other. -/
theorem command?_modify (group : Group) (index other : CommandIndex)
    (change : Command → Command) :
    (group.modify index change).command? other =
      if other = index then (group.command? other).map change else group.command? other := by
  obtain ⟨position⟩ := index
  obtain ⟨otherPosition⟩ := other
  simp only [command?, modify, List.getElem?_modify, CommandIndex.mk.injEq]
  by_cases same : otherPosition = position
  · simp [same]
  · have different : position ≠ otherPosition := fun eq => same eq.symm
    simp [same, different]

/-- Binding a slot changes no other. -/
theorem binding?_rebind (group : Group) (slot other : SlotName) (binding : Binding) :
    (group.rebind slot binding).binding? other =
      if other = slot then (group.binding? other).map fun _ => some binding
      else group.binding? other := by
  obtain ⟨command, placeholder⟩ := slot
  obtain ⟨otherCommand, otherPlaceholder⟩ := other
  simp only [binding?, rebind, command?_modify, SlotName.mk.injEq]
  by_cases sameCommand : otherCommand = command
  · rw [if_pos sameCommand]
    cases group.command? otherCommand with
    | none => simp
    | some holder =>
      by_cases same : otherPlaceholder = placeholder
      · cases found : holder.slot? placeholder <;>
          simp [Command.slot?_bind, sameCommand, same, found]
      · simp [Command.slot?_bind, same]
  · simp [sameCommand]

/-- A slot is declared exactly if something can be bound to it. -/
theorem declares_eq_isSome (group : Group) (slot : SlotName) :
    group.declares slot = (group.binding? slot).isSome := by
  cases found : group.binding? slot with
  | none => exact binding?_eq_none_iff.mp found
  | some binding =>
    refine Bool.of_not_eq_false fun undeclared => ?_
    rw [binding?_eq_none_iff.mpr undeclared] at found
    cases found

/-- Binding a slot declares no other and takes none away. -/
@[simp] theorem declares_rebind (group : Group) (slot other : SlotName) (binding : Binding) :
    (group.rebind slot binding).declares other = group.declares other := by
  rw [declares_eq_isSome, declares_eq_isSome, binding?_rebind]
  split <;> simp

/-- Binds axes one after the other. -/
def bindAxes (group : Group) (bindings : List LatticeSpec.AxisBinding) : Group :=
  bindings.foldl (fun group binding => group.rebind binding.slot (.coordinate binding.coordinate))
    group

/-- A group keeps its name when axes are bound. -/
@[simp] theorem name_bindAxes (group : Group) (bindings : List LatticeSpec.AxisBinding) :
    (group.bindAxes bindings).name = group.name := by
  induction bindings generalizing group with
  | nil => rfl
  | cons binding rest ih => exact ih (group.rebind binding.slot (.coordinate binding.coordinate))

/-- No failure comes in between when axes are bound whose slots are all declared. -/
theorem foldlM_bind_of_declares {bindings : List LatticeSpec.AxisBinding}
    (declared : ∀ binding ∈ bindings, group.declares binding.slot) :
    bindings.foldlM (fun group binding => group.bind binding.slot (.coordinate binding.coordinate))
      group = .ok (group.bindAxes bindings) := by
  induction bindings generalizing group with
  | nil => rfl
  | cons binding rest ih =>
    obtain ⟨first, later⟩ := List.forall_mem_cons.mp declared
    rw [List.foldlM_cons, bind_of_declares first, ok_bind, ih (by simpa using later)]
    rfl

/-- A slot at which axes are aimed gets the last of them, any other keeps its binding. -/
theorem binding?_bindAxes {bindings : List LatticeSpec.AxisBinding}
    (declared : ∀ binding ∈ bindings, group.declares binding.slot) (slot : SlotName) :
    (group.bindAxes bindings).binding? slot =
      match bindings.reverse.find? (·.slot = slot) with
      | some last => some (some (.coordinate last.coordinate))
      | none => group.binding? slot := by
  induction bindings generalizing group with
  | nil => rfl
  | cons binding rest ih =>
    obtain ⟨first, later⟩ := List.forall_mem_cons.mp declared
    have step : group.bindAxes (binding :: rest) =
        (group.rebind binding.slot (.coordinate binding.coordinate)).bindAxes rest := rfl
    rw [step, ih (by simpa using later), List.reverse_cons, List.find?_append,
      binding?_rebind]
    cases rest.reverse.find? (·.slot = slot) with
    | some last => rfl
    | none =>
      by_cases aimed : binding.slot = slot
      · have present : (group.binding? slot).isSome := by
          rw [← declares_eq_isSome, ← aimed]
          exact first
        obtain ⟨before, found⟩ := Option.isSome_iff_exists.mp present
        simp [aimed, found]
      · have different : slot ≠ binding.slot := fun eq => aimed eq.symm
        simp [aimed, different]

end Group

end TimedCommands
