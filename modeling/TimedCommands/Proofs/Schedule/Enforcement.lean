import TimedCommands.Proofs.Group.Operation
import TimedCommands.Proofs.Schedule.InPlace
import TimedCommands.Proofs.Validation.Conditions

/-!
# What firing enforces

Firing does not know whether a directive was validated, and it converts the fields of a directive
as it goes. These conversions are as strict as validation: the action of a directive that fires is
in range (`action_inRange_of_fire`), so the directive meets every condition that validation checks,
apart from those that are left to validation (`fired_meets_conditions`). Nothing is clamped or
wrapped on the way, and a directive that is out of range takes no effect at whatever time it is
due.
-/

namespace TimedCommands

namespace LatticeSpec

variable {rank : Rank} {spec : LatticeSpec}

/-- Dimensions that are converted are counts, one for each. -/
theorem isCount_of_dims {dims : List Nat} (converted : spec.dims.mapM dimension? = some dims) :
    dims.length = spec.dims.length ∧ ∀ raw ∈ spec.dims, IsCount raw := by
  have same : spec.dims.map dimension? = dims.map some :=
    map_eq_of_mapM (fun _ _ converts => converts) converted
  refine ⟨?_, fun raw member => ?_⟩
  · simpa using (congrArg List.length same).symm
  · have isConverted : dimension? raw ∈ dims.map some := same ▸ List.mem_map_of_mem member
    obtain ⟨dimension, -, converts⟩ := List.mem_map.mp isConverted
    exact isSome_dimension?_iff.mp (by rw [← converts]; rfl)

/-- A lattice that is described has entries for each axis, and counts as dimensions. -/
theorem lengths_of_lattice? {lattice : Lattice} (described : spec.lattice? rank = some lattice) :
    spec.dims.length = rank.axes ∧ spec.origin.length = rank.axes ∧
      spec.lengths.length = rank.axes ∧ ∀ raw ∈ spec.dims, IsCount raw := by
  obtain ⟨dims, converted, matched⟩ := Option.bind_eq_some_iff.mp described
  obtain ⟨sameLength, counts⟩ := isCount_of_dims converted
  split at matched
  · exact ⟨sameLength.symm, by simp [*, Rank.axes], by simp [*, Rank.axes], counts⟩
  · exact ⟨sameLength.symm, by simp [*, Rank.axes], by simp [*, Rank.axes], counts⟩
  · cases matched

/-- A lattice whose axes can be bound is in range. -/
theorem inRange_of_axisBindings? {bindings : List AxisBinding}
    (found : spec.axisBindings? rank = some bindings) : spec.InRange rank := by
  have aims := (aims_of_axisBindings? found).slots
  rw [axisBindings?] at found
  obtain ⟨lattice, described, found⟩ := Option.bind_eq_some_iff.mp found
  obtain ⟨dims, origin, lengths, dimensions⟩ := lengths_of_lattice? described
  split at found
  case isTrue => cases found
  case isFalse fits =>
    refine ⟨Classical.not_not.mp fits, dims, origin, lengths, fun target member => ?_, dimensions⟩
    have aimed := List.mem_map_of_mem (f := fun target : RawSlot =>
      (CommandIndex.ofRaw? target.command, target.placeholder)) member
    rw [aims] at aimed
    obtain ⟨binding, -, same⟩ := List.mem_map.mp aimed
    exact isSome_ofRaw?_iff.mp (by rw [← (Prod.mk.inj same).1]; rfl)

end LatticeSpec

namespace RunState

variable {arity : ArityLookup} {state changed : RunState} {directive : Directive}
  {effects : List Effect}

/-- An index that firing accepts is a count. -/
theorem isCount_of_checkIndex {raw : Int64} {index : CommandIndex}
    (checked : checkIndex raw = .ok index) : IsCount raw := by
  rw [checkIndex] at checked
  split at checked
  · next denoted => exact isSome_ofRaw?_iff.mp (by rw [denoted]; rfl)
  · cases checked

/-- A slot that firing accepts has a count as its index. -/
theorem isCount_of_checkSlot {target : RawSlot} {slot : SlotName}
    (checked : checkSlot target = .ok slot) : IsCount target.command := by
  obtain ⟨index, checked, -⟩ := bind_eq_ok_iff.mp checked
  exact isCount_of_checkIndex checked

/-- Bounds that firing accepts are those of a progression. -/
theorem isSome_of_checkBounds {initial increment : Value} {rule : Progression}
    (checked : checkBounds initial increment = .ok rule) :
    (Progression.ofValues? initial increment).isSome := by
  rw [checkBounds] at checked
  split at checked
  · next between => rw [between]; rfl
  · cases checked

/-- A directive that fires is in range, whether or not it was ever validated. -/
theorem action_inRange_of_fire (fired : state.fire arity directive = .ok (changed, effects)) :
    directive.action.InRange arity := by
  cases fire_eq_ok_iff.mp fired with
  | createGroup | toggleAll | switchAll => trivial
  | addCommand found added =>
    obtain ⟨known, distinct, -⟩ := Group.add_eq_ok_iff.mp added
    exact ⟨known, distinct⟩
  | bindConstant checked => exact isCount_of_checkSlot checked
  | bindSequence checked between =>
    exact ⟨isCount_of_checkSlot checked, isSome_of_checkBounds between⟩
  | bindArgument checked checkedSource =>
    exact ⟨isCount_of_checkSlot checked, isCount_of_checkSlot checkedSource⟩
  | bindLattice checked =>
    exact LatticeSpec.inRange_of_axisBindings? (axisBindings?_of_checkLattice checked)
  | toggleCommand checked | switchCommand checked => exact isCount_of_checkIndex checked
  | executeSequence found counted spaced =>
    exact ⟨(checkTotal_eq_ok_iff.mp counted).1, (checkPeriod_eq_ok_iff.mp spaced).1⟩

end RunState

/-- Firing is as strict as validation, in whatever state and context and whether or not the directive
was validated. Validation checks the listed conditions one after the other; a directive that fires
meets all of them but those that are left to validation, and one that does not meet some other
condition has no effect, whenever it is due. -/
theorem fired_meets_conditions (context : ValidationContext) (state : RunState)
    (directive : Directive) :
    Check.directive context directive =
        Conditions.check (Conditions.directive context directive) ∧
      (∀ changed effects, state.fire context.arity directive = .ok (changed, effects) →
        ∀ condition ∈ Conditions.directive context directive,
          condition.holds ∨ condition.reason.isLeftToValidation) ∧
      ∀ condition ∈ Conditions.directive context directive, ¬ condition.holds →
        ¬ condition.reason.isLeftToValidation → ∀ now,
          (Scheduler.handleDirective context.arity now state directive).1 = state := by
  have enforced : ∀ changed effects,
      state.fire context.arity directive = .ok (changed, effects) →
      ∀ condition ∈ Conditions.directive context directive,
        condition.holds ∨ condition.reason.isLeftToValidation :=
    fun changed effects fired condition member =>
      Conditions.isEnforced_of_inRange (RunState.action_inRange_of_fire fired) member
  refine ⟨Conditions.check_directive_eq context directive, enforced, ?_⟩
  intro condition member fails notLeft now
  rw [Scheduler.handleDirective]
  split
  · rfl
  · cases fired : state.fire context.arity directive with
    | error fault => rfl
    | ok result =>
      rcases enforced result.1 result.2 fired condition member with holds | left
      · exact absurd holds fails
      · exact absurd left notLeft

/-- A group that validation would have rejected for its name, with one command. -/
def unvalidatedGroup : List Directive :=
  [⟨0, "2 probes", .createGroup⟩, ⟨0, "2 probes", .addCommand "move" ["x", "y"]⟩]

/-- A lattice that begins left of zero, with a given number of columns. -/
def lowLattice (columns : Int64) : Directive :=
  ⟨0, "2 probes", .bindLattice .two
    ⟨[⟨1, "x"⟩, ⟨1, "y"⟩], [columns, 2], [-1.0, 0.0], [4.0, 4.0], .rectangular⟩⟩

/-- A directive that validation rejects can still fire, if it was rejected for a name or an extent
alone; with a dimension out of range it has no effect. -/
theorem fired_meets_conditions_unvalidated :
    let arity := (CommandTypes.ofList [("move", 2)]).arity
    let context := ValidationContext.fresh arity true true
    let state := RunState.empty.build arity unvalidatedGroup
    Check.directive context (lowLattice 3) = .error (.badIdentifier "group name" "2 probes") ∧
      (∃ changed effects, state.fire arity (lowLattice 3) = .ok (changed, effects)) ∧
      ⟨false, .badOrigin (-1.0)⟩ ∈ Conditions.directive context (lowLattice 3) ∧
      (∀ condition ∈ Conditions.directive context (lowLattice 3),
        condition.holds ∨ condition.reason.isLeftToValidation) ∧
      ⟨false, .badDimension 0⟩ ∈ Conditions.directive context (lowLattice 0) ∧
      (Scheduler.handleDirective arity 0 state (lowLattice 0)).1 = state := by
  intro arity context state
  have fires : ∃ changed effects, state.fire arity (lowLattice 3) = .ok (changed, effects) := by
    have succeeds : (state.fire arity (lowLattice 3)).isOk := by decide +kernel
    cases fired : state.fire arity (lowLattice 3) with
    | ok result => exact ⟨result.1, result.2, rfl⟩
    | error fault => simp [fired, Except.isOk, Except.toBool] at succeeds
  have flat : ⟨false, .badDimension 0⟩ ∈ Conditions.directive context (lowLattice 0) := by
    decide +kernel
  have ineffective := (fired_meets_conditions context state (lowLattice 0)).2.2 _ flat nofun nofun 0
  obtain ⟨changed, effects, fired⟩ := fires
  exact ⟨by decide +kernel, ⟨changed, effects, fired⟩, by decide +kernel,
    (fired_meets_conditions context state (lowLattice 3)).2.1 changed effects fired, flat,
    ineffective⟩

end TimedCommands
