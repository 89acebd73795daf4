import TimedCommands.Proofs.Group.Operation
import TimedCommands.Proofs.Group.Resolution

/-!
# Enabled flags

The flag of a command says whether the command is handed over, and nothing else. Slots are evaluated
along the bindings, which flags are no part of (`evaluate_reflag`), so a reference to a disabled
command has the value that it has to an enabled one. Resolving needs the slots of the enabled
commands only: with fewer of them it succeeds all the more, with the commands that are left as they
were (`resolve_of_fewer`), and with more of them it fails if it failed before.

Which slots are pulled, in which order and what is remembered by then do depend on the flags. That
they make no difference is what resolving as evaluating says (`resolve_eq_ok_iff`).
-/

namespace TimedCommands

/-- Whether an operation sets or flips enabled flags, and leaves all else alone. -/
def GroupOperation.switches : GroupOperation → Bool
  | setEnabled _ _ => true
  | toggle _ => true
  | setAllEnabled _ => true
  | toggleAll => true
  | add _ _ => false
  | bind _ _ => false

namespace Group

variable {arity : ArityLookup} {group other : Group} {iteration : Nat} {slot : SlotName}
  {flag : CommandIndex → Bool → Bool} {outcome : Except Fault Value}

/-- Whether there is an enabled command at an index. -/
def isEnabled (group : Group) (index : CommandIndex) : Bool :=
  (group.command? index).any (·.enabled)

/-- The group with other enabled flags, each told by the index and the flag of before. -/
def reflag (group : Group) (flag : CommandIndex → Bool → Bool) : Group :=
  { group with
    commands := group.commands.mapIdx fun position command =>
      { command with enabled := flag ⟨position⟩ command.enabled } }

/-- Other flags are other flags of the same commands. -/
theorem command?_reflag (group : Group) (flag : CommandIndex → Bool → Bool)
    (index : CommandIndex) :
    (group.reflag flag).command? index =
      (group.command? index).map fun command =>
        { command with enabled := flag index command.enabled } :=
  List.getElem?_mapIdx

/-- Flags are no part of the bindings. -/
@[simp] theorem binding?_reflag (group : Group) (flag : CommandIndex → Bool → Bool)
    (slot : SlotName) : (group.reflag flag).binding? slot = group.binding? slot := by
  rw [binding?, binding?, command?_reflag]
  cases group.command? slot.command <;> rfl

/-- A group is told by its name and its commands, one index after the other. -/
theorem eq_of_command? (sameName : group.name = other.name)
    (sameCommand : ∀ index, group.command? index = other.command? index) : group = other := by
  obtain ⟨name, commands⟩ := group
  obtain ⟨otherName, otherCommands⟩ := other
  obtain rfl : name = otherName := sameName
  exact congrArg (mk name) (List.ext_getElem? fun position => sameCommand ⟨position⟩)

/-- Flags that are changed twice are changed by both rules, one after the other. -/
theorem reflag_reflag (group : Group) (first second : CommandIndex → Bool → Bool) :
    (group.reflag first).reflag second =
      group.reflag fun index enabled => second index (first index enabled) := by
  refine eq_of_command? rfl fun index => ?_
  rw [command?_reflag, command?_reflag, command?_reflag, Option.map_map]
  rfl

/-- A group whose flags are left is left. -/
theorem reflag_same (group : Group) : (group.reflag fun _ enabled => enabled) = group := by
  refine eq_of_command? rfl fun index => ?_
  rw [command?_reflag]
  exact Option.map_id'

/-- Flags that have been changed can be set as they were. -/
theorem reflag_back (group : Group) (flag : CommandIndex → Bool → Bool) :
    ((group.reflag flag).reflag fun index _ => group.isEnabled index) = group := by
  refine eq_of_command? rfl fun index => ?_
  rw [command?_reflag, command?_reflag, isEnabled]
  cases group.command? index <;> rfl

/-- Whether an index is enabled is told by its command. -/
theorem isEnabled_of_command? {index : CommandIndex} {command : Command}
    (found : group.command? index = some command) :
    group.isEnabled index = command.enabled := by
  rw [isEnabled, found]
  rfl

/-- The flag of a command is what the rule makes of it. -/
theorem isEnabled_reflag {index : CommandIndex} {command : Command}
    (found : group.command? index = some command) (flag : CommandIndex → Bool → Bool) :
    (group.reflag flag).isEnabled index = flag index command.enabled := by
  rw [isEnabled, command?_reflag, found]
  rfl

/-- What sets or flips flags changes nothing but flags. -/
theorem exists_reflag_settle (arity : ArityLookup) (group : Group) {operation : GroupOperation}
    (switches : operation.switches) : ∃ flag, group.settle arity operation = group.reflag flag := by
  have performed := group.performed arity operation
  generalize (group.event arity operation).outcome = outcome at performed
  generalize group.settle arity operation = after at performed ⊢
  cases performed with
  | added => cases switches
  | bound => cases switches
  | @switched index command found enabled =>
    refine ⟨fun other old => if other = index then enabled else old, ?_⟩
    refine eq_of_command? rfl fun other => ?_
    rw [command?_modify, command?_reflag]
    by_cases same : other = index <;> simp [same]
  | @toggled index command found =>
    refine ⟨fun other old => if other = index then !old else old, ?_⟩
    refine eq_of_command? rfl fun other => ?_
    rw [command?_modify, command?_reflag]
    by_cases same : other = index <;> simp [same]
  | allSwitched enabled =>
    refine ⟨fun _ _ => enabled, eq_of_command? rfl fun other => ?_⟩
    rw [command?_reflag]
    exact List.getElem?_map
  | allToggled =>
    refine ⟨fun _ old => !old, eq_of_command? rfl fun other => ?_⟩
    rw [command?_reflag]
    exact List.getElem?_map
  | failed => exact ⟨fun _ old => old, group.reflag_same.symm⟩

/-- However flags are set and flipped, nothing but flags changes. -/
theorem exists_reflag_after (arity : ArityLookup) (group : Group)
    {operations : List GroupOperation} (switch : ∀ operation ∈ operations, operation.switches) :
    ∃ flag, group.after arity operations = group.reflag flag := by
  induction operations generalizing group with
  | nil => exact ⟨fun _ old => old, group.reflag_same.symm⟩
  | cons operation rest ih =>
    obtain ⟨first, later⟩ := List.forall_mem_cons.mp switch
    obtain ⟨flag, settled⟩ := group.exists_reflag_settle arity first
    obtain ⟨further, reached⟩ := ih (group.settle arity operation) later
    refine ⟨fun index old => further index (flag index old), ?_⟩
    rw [after, List.foldl_cons, ← after, reached, settled, reflag_reflag]

/-! Slots come to what they come to with any flags. -/

/-- References do not depend on the flags. -/
theorem source?_reflag (group : Group) (flag : CommandIndex → Bool → Bool) (slot : SlotName) :
    (group.reflag flag).source? slot = group.source? slot := by
  rw [source?, source?, binding?_reflag]

/-- What a slot gives does not depend on the flags. -/
theorem Gives.reflag (gives : group.Gives iteration slot outcome)
    (flag : CommandIndex → Bool → Bool) : (group.reflag flag).Gives iteration slot outcome := by
  cases gives with
  | constant bound => exact .constant (by rwa [binding?_reflag])
  | progression bound inRange => exact .progression (by rwa [binding?_reflag]) inRange
  | overflow bound beyond => exact .overflow (by rwa [binding?_reflag]) beyond
  | coordinate bound => exact .coordinate (by rwa [binding?_reflag])
  | unknown undeclared =>
    have unbound : (group.reflag flag).binding? slot = none := by
      rw [binding?_reflag, binding?_eq_none_iff.mpr undeclared]
    exact .unknown (binding?_eq_none_iff.mp unbound)
  | unbound bare => exact .unbound (by rwa [binding?_reflag])

/-- Pulling a slot goes the same way with any flags. -/
theorem pull_reflag (group : Group) (flag : CommandIndex → Bool → Bool) (iteration : Nat)
    (chain : List SlotName) (known : SlotValues) (slot : SlotName) :
    (group.reflag flag).pull iteration chain known slot =
      group.pull iteration chain known slot := by
  cases found : known.lookup slot with
  | some value => rw [pull_of_lookup found, pull_of_lookup found]
  | none =>
    by_cases passed : slot ∈ chain
    · rw [pull_of_passed found passed, pull_of_passed found passed]
    · cases leads : group.source? slot with
      | none =>
        obtain ⟨outcome, gives⟩ := exists_gives leads iteration
        rw [pull_of_gives found passed gives, pull_of_gives found passed (gives.reflag flag)]
      | some source =>
        have leadsToo : (group.reflag flag).source? slot = some source := by
          rw [source?_reflag, leads]
        rw [pull_of_source? found passed leads, pull_of_source? found passed leadsToo,
          pull_reflag group flag iteration (chain ++ [slot]) known source]
termination_by (group.fresh chain).length
decreasing_by exact length_fresh_append_lt (mem_slotNames_of_source? leads) passed

/-- Evaluating a slot does not look at the flags. -/
theorem evaluate_reflag (group : Group) (flag : CommandIndex → Bool → Bool) (slot : SlotName)
    (iteration : Nat) :
    (group.reflag flag).evaluate slot iteration = group.evaluate slot iteration := by
  rw [evaluate, evaluate, pull_reflag]

/-! The enabled commands are those that are handed over. -/

variable {resolved : List ResolvedCommand}

/-- A command resolves to one thing only. -/
theorem Resolves.unique {entry : CommandIndex × Command} {first second : ResolvedCommand}
    (here : group.Resolves iteration entry first) (there : group.Resolves iteration entry second) :
    first = second := by
  obtain ⟨index, typeName, arguments⟩ := first
  obtain ⟨otherIndex, otherType, otherArguments⟩ := second
  obtain rfl : index = otherIndex := here.index.trans there.index.symm
  obtain rfl : typeName = otherType := here.typeName.trans there.typeName.symm
  have functional : Relator.RightUnique fun (slot : Slot) value =>
      group.evaluate ⟨entry.1, slot.placeholder⟩ iteration = .ok value :=
    fun _ _ _ first second => Except.ok.inj (first.symm.trans second)
  obtain rfl : arguments = otherArguments :=
    functional.forall₂ here.arguments there.arguments
  rfl

/-- Resolving succeeds with the commands that stand for the enabled ones. -/
theorem resolve_eq_ok_iff :
    group.resolve iteration = .ok resolved ↔
      List.Forall₂ (group.Resolves iteration)
        (group.indexed.filter fun entry => entry.2.enabled) resolved := by
  rcases resolveCommands_spec remembers_nil group.indexed with
    ⟨others, succeeds, stand⟩ | ⟨fault, fails, first⟩
  · constructor
    · intro resolves
      obtain rfl : others = resolved := Except.ok.inj (succeeds.symm.trans resolves)
      exact stand
    · intro standsToo
      have functional : Relator.RightUnique (group.Resolves iteration) :=
        fun _ _ _ first second => first.unique second
      obtain rfl : others = resolved := functional.forall₂ stand standsToo
      exact succeeds
  · constructor
    · intro resolves
      cases fails.symm.trans resolves
    · intro stand
      exact absurd (evaluates_of_resolves stand) first.not_all_ok

/-- Under other flags, the commands stand at their indices as before. -/
theorem indexed_reflag (group : Group) (flag : CommandIndex → Bool → Bool) :
    (group.reflag flag).indexed = group.indexed.map fun entry =>
      (entry.1, { entry.2 with enabled := flag entry.1 entry.2.enabled }) := by
  apply List.ext_getElem?
  intro position
  simp only [indexed, reflag, List.getElem?_map, List.getElem?_zipIdx, List.getElem?_mapIdx,
    Option.map_map, Function.comp_def, Nat.zero_add]

/-- A command that is listed with an index stands there. -/
theorem command?_of_mem_indexed {entry : CommandIndex × Command} (member : entry ∈ group.indexed) :
    group.command? entry.1 = some entry.2 := by
  obtain ⟨⟨command, position⟩, found, rfl⟩ := List.mem_map.mp member
  exact List.mk_mem_zipIdx_iff_getElem?.mp found

/-- With fewer commands enabled, the enabled ones are those of before that still are. -/
theorem filter_indexed_reflag
    (fewer : ∀ index, (group.reflag flag).isEnabled index → group.isEnabled index) :
    group.indexed.filter (fun entry => flag entry.1 entry.2.enabled) =
      (group.indexed.filter fun entry => entry.2.enabled).filter fun entry =>
        (group.reflag flag).isEnabled entry.1 := by
  rw [List.filter_filter]
  refine List.filter_congr fun entry member => ?_
  have found := command?_of_mem_indexed member
  have monotone := fewer entry.1
  rw [isEnabled_reflag found, isEnabled_of_command? found] at monotone
  rw [isEnabled_reflag found]
  cases enabled : flag entry.1 entry.2.enabled
  · rfl
  · rw [monotone enabled]
    rfl

/-- A resolved command stands for the same command with any flag. -/
theorem Resolves.reflag {entry : CommandIndex × Command} {command : ResolvedCommand}
    (stands : group.Resolves iteration entry command) (flag : CommandIndex → Bool → Bool)
    (enabled : Bool) :
    (group.reflag flag).Resolves iteration (entry.1, { entry.2 with enabled }) command where
  index := stands.index
  typeName := stands.typeName
  arguments := stands.arguments.imp fun slot value evaluates => by rwa [evaluate_reflag]

/-- With fewer commands enabled, resolving gives those that are left, as they were. -/
theorem resolve_of_fewer (group : Group) (flag : CommandIndex → Bool → Bool)
    (fewer : ∀ index, (group.reflag flag).isEnabled index → group.isEnabled index)
    (resolves : group.resolve iteration = .ok resolved) :
    (group.reflag flag).resolve iteration =
      .ok (resolved.filter fun command => (group.reflag flag).isEnabled command.index) := by
  have stand : List.Forall₂ (group.Resolves iteration)
      ((group.indexed.filter fun entry => entry.2.enabled).filter fun entry =>
        (group.reflag flag).isEnabled entry.1)
      (resolved.filter fun command => (group.reflag flag).isEnabled command.index) := by
    refine List.rel_filter (fun entry command stands => ?_) (resolve_eq_ok_iff.mp resolves)
    simp only [stands.index]
  rw [← filter_indexed_reflag fewer] at stand
  rw [resolve_eq_ok_iff, indexed_reflag, List.filter_map, List.forall₂_map_left_iff]
  exact stand.imp fun entry command stands => stands.reflag flag _

/-- With more commands enabled, resolving fails if it failed before. -/
theorem resolve_error_of_more (group : Group) (flag : CommandIndex → Bool → Bool) {fault : Fault}
    (more : ∀ index, group.isEnabled index → (group.reflag flag).isEnabled index)
    (fails : group.resolve iteration = .error fault) :
    ∃ other, (group.reflag flag).resolve iteration = .error other := by
  cases changed : (group.reflag flag).resolve iteration with
  | error other => exact ⟨other, rfl⟩
  | ok resolved =>
    -- The flags of before enable fewer commands, so with them the group resolves as well.
    have back := group.reflag_back flag
    have resolves := resolve_of_fewer (group.reflag flag) (fun index _ => group.isEnabled index)
      (by rwa [back]) changed
    rw [back, fails] at resolves
    cases resolves

/-- Enabled flags only filter. However the flags of a group are set and flipped, every slot has the
value or the fault that it had. If no command is enabled that was not, then a repetition that
resolved still resolves, to the commands of before without those that are disabled, each with its
type and its argument values. If no command is disabled that was enabled, then a repetition that
did not resolve still does not. -/
theorem enabled_flags_only_filter (arity : ArityLookup) (group : Group) (iteration : Nat)
    (operations : List GroupOperation) (switch : ∀ operation ∈ operations, operation.switches) :
    let changed := group.after arity operations
    (∀ slot, changed.evaluate slot iteration = group.evaluate slot iteration) ∧
    ((∀ index, changed.isEnabled index → group.isEnabled index) →
      ∀ resolved, group.resolve iteration = .ok resolved →
        changed.resolve iteration =
          .ok (resolved.filter fun command => changed.isEnabled command.index)) ∧
    ((∀ index, group.isEnabled index → changed.isEnabled index) →
      ∀ fault, group.resolve iteration = .error fault →
        ∃ other, changed.resolve iteration = .error other) := by
  obtain ⟨flag, reached⟩ := group.exists_reflag_after arity switch
  simp only [reached]
  exact ⟨fun slot => group.evaluate_reflag flag slot iteration,
    fun fewer _ resolves => group.resolve_of_fewer flag fewer resolves,
    fun more _ fails => group.resolve_error_of_more flag more fails⟩

/-- A command that is disabled still lends its value to the one that refers to it. -/
theorem disabled_source_resolves :
    let group : Group :=
      ⟨"G", [⟨"move", [⟨"x", some (.progression (.integer 2 2))⟩], true⟩,
        ⟨"turn", [⟨"y", some (.reference ⟨⟨0⟩, "x"⟩)⟩], true⟩]⟩
    (group.after (fun _ => some 1) [.setEnabled ⟨0⟩ false]).resolve 1 =
      .ok [⟨⟨1⟩, "turn", [.integer 4]⟩] := by
  intro group
  have switch : ∀ operation ∈ [GroupOperation.setEnabled ⟨0⟩ false], operation.switches := by decide
  have filters := (enabled_flags_only_filter (fun _ => some 1) group 1 _ switch).2.1
  have fewer : ∀ index,
      (group.after (fun _ => some 1) [.setEnabled ⟨0⟩ false]).isEnabled index →
        group.isEnabled index := by
    rintro ⟨position⟩ enabled
    match position with
    | 0 => rfl
    | 1 => rfl
    | beyond + 2 => exact enabled
  exact filters fewer [⟨⟨0⟩, "move", [.integer 4]⟩, ⟨⟨1⟩, "turn", [.integer 4]⟩]
    (by decide +kernel)

end Group

end TimedCommands
