import TimedCommands.Proofs.Validation.Acceptance

/-!
# The conditions that validation checks

A check ends with the first condition that does not hold, so its outcome is silent about the
conditions behind that one. `Conditions.directive` lists them all, in the order in which they are
checked and each with the reason that its failure gives; `check_directive_eq` shows that validation
is the search for the first that fails.

Some conditions are left to validation, since the names, the history and the magnitudes that they
are about do no harm to a run. All the others follow from an action being in range
(`isEnforced_of_inRange`).
-/

namespace TimedCommands

/-- Whether a reason is about what validation alone looks at: the spelling of names, the names that
a program uses, the bounds of real sequences under the legacy rule, and the extent of lattices. -/
def Reason.isLeftToValidation : Reason → Bool
  | badIdentifier _ _ => true
  | groupInUse _ => true
  | negativeInitial _ => true
  | negativeIncrement _ => true
  | badOrigin _ => true
  | badLength _ => true
  | _ => false

/-- A single condition of a check, and the reason against a directive for which it does not hold. -/
structure Condition where
  holds : Bool
  reason : Reason
  deriving Repr, DecidableEq

namespace Conditions

/-- The conditions of a group name. -/
def group (name : GroupName) : List Condition :=
  [⟨isIdentifier name, .badIdentifier "group name" name⟩]

/-- The conditions of a placeholder. -/
def placeholder (name : Placeholder) : List Condition :=
  [⟨isIdentifier name, .badIdentifier "placeholder" name⟩]

/-- The conditions of a command index. -/
def index (what : String) (raw : Int64) : List Condition :=
  [⟨(CommandIndex.ofRaw? raw).isSome, .badIndex what raw⟩]

/-- The conditions of a slot. -/
def slot (what : String) (slot : RawSlot) : List Condition :=
  index what slot.command ++ placeholder slot.placeholder

/-- The conditions of placeholders behind others. -/
def placeholders (seen : List Placeholder) : List Placeholder → List Condition
  | [] => []
  | name :: rest =>
    placeholder name ++ ⟨name ∉ seen, .repeatedPlaceholder name⟩ :: placeholders (name :: seen) rest

/-- The conditions of a command type that is given a number of placeholders. -/
def commandType (arity : ArityLookup) (typeName : String) (found : Nat) : List Condition :=
  ⟨(arity typeName).isSome, .unknownCommandType typeName⟩ ::
    match arity typeName with
    | none => []
    | some expected => [⟨found = expected, .arityMismatch typeName expected found⟩]

/-- The conditions of sequence bounds. -/
def bounds (legacy : Bool) (initial increment : Value) : List Condition :=
  ⟨(Progression.ofValues? initial increment).isSome, .textBound⟩ ::
    match Progression.ofValues? initial increment with
    | some (.real initial increment) =>
      [⟨!(legacy && initial < 0.0), .negativeInitial initial⟩,
        ⟨!(legacy && increment < 0.0), .negativeIncrement increment⟩]
    | _ => []

/-- The condition of a lattice list. -/
def shape {α : Type} (rank : Rank) (what : String) (entries : List α) : List Condition :=
  [⟨entries.length = rank.axes, .latticeShape rank what entries.length⟩]

/-- The conditions of a lattice. -/
def lattice (rank : Rank) (spec : LatticeSpec) : List Condition :=
  shape rank "targets" spec.targets ++ shape rank "dimensions" spec.dims
    ++ shape rank "origin" spec.origin ++ shape rank "lengths" spec.lengths
    ++ spec.targets.flatMap (slot "command index")
    ++ spec.dims.map (fun raw => ⟨(LatticeSpec.dimension? raw).isSome, .badDimension raw⟩)
    ++ spec.origin.map (fun origin => ⟨Check.isExtent origin, .badOrigin origin⟩)
    ++ spec.lengths.map fun length => ⟨Check.isExtent length, .badLength length⟩

/-- The conditions of an action. -/
def action (context : ValidationContext) (name : GroupName) : Action → List Condition
  | .createGroup => [⟨name ∉ context.declared, .groupInUse name⟩]
  | .addCommand typeName names =>
    commandType context.arity typeName names.length ++ placeholders [] names
  | .bindConstant target _ => slot "command index" target
  | .bindSequence target initial increment =>
    slot "command index" target ++ bounds context.legacy initial increment
  | .bindArgument target source =>
    slot "command index" target ++ slot "source command index" source
  | .bindLattice rank spec => lattice rank spec
  | .toggleCommand command => index "command index" command
  | .toggleAll => []
  | .switchCommand _ command => index "command index" command
  | .switchAll _ => []
  | .executeSequence total period =>
    [⟨Check.isTotal total, .badTotal total⟩, ⟨0 ≤ period.toInt, .badPeriod period⟩]

/-- The conditions of a directive, in the order in which they are checked. -/
def directive (context : ValidationContext) (directive : Directive) : List Condition :=
  group directive.group ++ action context directive.group directive.action

/-- The outcome of checking conditions one after the other. -/
def check (conditions : List Condition) : Check :=
  conditions.forM fun condition => Check.that condition.holds condition.reason

/-- A single condition is checked as such. -/
theorem check_singleton (holds : Bool) (reason : Reason) :
    check [⟨holds, reason⟩] = Check.that holds reason := by
  cases holds <;> rfl

/-- A condition is checked before those behind it. -/
theorem check_cons (condition : Condition) (rest : List Condition) :
    check (condition :: rest) = (do Check.that condition.holds condition.reason; check rest) := rfl

/-- Conditions are checked in their order, one list behind the other. -/
theorem check_append (first second : List Condition) :
    check (first ++ second) = (do check first; check second) :=
  List.forM_append

/-- The conditions of entries are checked entry by entry. -/
theorem check_flatMap {α : Type} (entries : List α) (conditions : α → List Condition) :
    check (entries.flatMap conditions) = entries.forM fun entry => check (conditions entry) := by
  induction entries with
  | nil => rfl
  | cons entry rest ih => rw [List.flatMap_cons, check_append, ih, List.forM_eq_forM, List.forM_cons]

/-- A condition for each entry is checked entry by entry. -/
theorem check_map {α : Type} (entries : List α) (holds : α → Bool) (reason : α → Reason) :
    check (entries.map fun entry => ⟨holds entry, reason entry⟩) =
      entries.forM fun entry => Check.that (holds entry) (reason entry) :=
  List.forM_map ..

/-- The listed conditions of a slot are those that its check looks at, in its order. -/
theorem check_slot (what : String) (target : RawSlot) :
    check (slot what target) = Check.slot what target := by
  rw [slot, check_append, index, placeholder, check_singleton, check_singleton]
  rfl

/-- The listed conditions of placeholders are those that their check looks at, in its order. -/
theorem check_placeholders (seen names : List Placeholder) :
    check (placeholders seen names) = Check.placeholders seen names := by
  induction names generalizing seen with
  | nil => rfl
  | cons name rest ih =>
    rw [placeholders, check_append, check_cons, ih, placeholder, check_singleton]
    rfl

/-- The listed conditions of a command type are those that its check looks at, in its order. -/
theorem check_commandType (arity : ArityLookup) (typeName : String) (found : Nat) :
    check (commandType arity typeName found) = Check.commandType arity typeName found := by
  rw [commandType, Check.commandType, check_cons]
  cases arity typeName with
  | none => rfl
  | some expected => exact check_singleton ..

/-- The listed conditions of bounds are those that their check looks at, in its order. -/
theorem check_bounds (legacy : Bool) (initial increment : Value) :
    check (bounds legacy initial increment) = Check.bounds legacy initial increment := by
  rw [bounds, Check.bounds, check_cons]
  cases Progression.ofValues? initial increment with
  | none => rfl
  | some rule =>
    cases rule with
    | integer first step => rfl
    | real first step =>
      change check [_, _] = _
      rw [check_cons, check_singleton]

/-- The listed conditions of a lattice are those that its check looks at, in its order. -/
theorem check_lattice (rank : Rank) (spec : LatticeSpec) :
    check (lattice rank spec) = Check.lattice rank spec := by
  simp only [lattice, check_append, shape, check_singleton, check_flatMap, check_slot, check_map,
    bind_assoc]
  rfl

/-- The listed conditions of an action are those that its check looks at, in its order. -/
theorem check_action (context : ValidationContext) (name : GroupName) (did : Action) :
    check (action context name did) = Check.action context name did := by
  cases did with
  | createGroup => exact check_singleton ..
  | addCommand typeName names =>
    rw [action, check_append, check_commandType, check_placeholders]
    rfl
  | bindConstant target value => exact check_slot ..
  | bindSequence target initial increment =>
    rw [action, check_append, check_slot, check_bounds]
    rfl
  | bindArgument target source =>
    rw [action, check_append, check_slot, check_slot]
    rfl
  | bindLattice rank spec => exact check_lattice ..
  | toggleCommand command => exact check_singleton ..
  | toggleAll => rfl
  | switchCommand enabled command => exact check_singleton ..
  | switchAll enabled => rfl
  | executeSequence total period =>
    rw [action, check_cons, check_singleton]
    rfl

/-- Validation checks the conditions of a directive one after the other, and nothing else. -/
theorem check_directive_eq (context : ValidationContext) (checked : Directive) :
    Check.directive context checked = check (directive context checked) := by
  rw [directive, check_append, check_action, group, check_singleton]
  rfl

/-- A condition that is met, or that validation alone looks at. -/
def IsEnforced (condition : Condition) : Prop :=
  condition.holds ∨ condition.reason.isLeftToValidation

section

variable {what : String} {raw : Int64} {condition : Condition}

/-- A count meets the condition of an index. -/
theorem isEnforced_of_index (inRange : IsCount raw) (member : condition ∈ index what raw) :
    IsEnforced condition := by
  rw [List.mem_singleton.mp member]
  exact .inl (isSome_ofRaw?_iff.mpr inRange)

/-- A slot whose index is a count meets what is not left to validation. -/
theorem isEnforced_of_slot {target : RawSlot} (inRange : IsCount target.command)
    (member : condition ∈ slot what target) : IsEnforced condition := by
  rcases List.mem_append.mp member with ofIndex | ofName
  · exact isEnforced_of_index inRange ofIndex
  · rw [List.mem_singleton.mp ofName]
    exact .inr rfl

/-- Distinct placeholders meet what is not left to validation. -/
theorem isEnforced_of_placeholders {seen names : List Placeholder} (distinct : names.Nodup)
    (apart : ∀ name ∈ names, name ∉ seen) (member : condition ∈ placeholders seen names) :
    IsEnforced condition := by
  induction names generalizing seen with
  | nil => cases member
  | cons name rest ih =>
    obtain ⟨new, distinct⟩ := List.nodup_cons.mp distinct
    obtain ⟨notSeen, apart⟩ := List.forall_mem_cons.mp apart
    rcases List.mem_append.mp member with ofName | member
    · rw [List.mem_singleton.mp ofName]
      exact .inr rfl
    rcases List.mem_cons.mp member with rfl | later
    · exact .inl (decide_eq_true notSeen)
    · refine ih distinct (fun other here => ?_) later
      rw [List.mem_cons, not_or]
      exact ⟨fun same => new (same ▸ here), apart other here⟩

/-- A known type with the number of its placeholders meets its conditions. -/
theorem isEnforced_of_commandType {arity : ArityLookup} {typeName : String} {found : Nat}
    (known : arity typeName = some found) (member : condition ∈ commandType arity typeName found) :
    IsEnforced condition := by
  rw [commandType, known] at member
  rcases List.mem_cons.mp member with rfl | member
  · exact .inl rfl
  · rw [List.mem_singleton.mp member]
    exact .inl (decide_eq_true rfl)

/-- The bounds of a progression meet what is not left to validation. -/
theorem isEnforced_of_bounds {legacy : Bool} {initial increment : Value}
    (numeric : (Progression.ofValues? initial increment).isSome)
    (member : condition ∈ bounds legacy initial increment) : IsEnforced condition := by
  rcases List.mem_cons.mp member with rfl | member
  · exact .inl numeric
  · split at member
    · rcases List.mem_pair.mp member with rfl | rfl <;> exact .inr rfl
    · cases member

/-- A list with an entry for each axis meets the condition of its shape. -/
theorem isEnforced_of_shape {α : Type} {rank : Rank} {entries : List α}
    (fits : entries.length = rank.axes) (member : condition ∈ shape rank what entries) :
    IsEnforced condition := by
  rw [List.mem_singleton.mp member]
  exact .inl (decide_eq_true fits)

/-- A lattice in range meets what is not left to validation. -/
theorem isEnforced_of_lattice {rank : Rank} {spec : LatticeSpec} (inRange : spec.InRange rank)
    (member : condition ∈ lattice rank spec) : IsEnforced condition := by
  simp only [lattice, List.mem_append, List.mem_flatMap, List.mem_map, or_assoc] at member
  rcases member with targets | dims | origin | lengths | ⟨target, here, ofTarget⟩ |
    ⟨raw, here, rfl⟩ | ⟨start, here, rfl⟩ | ⟨length, here, rfl⟩
  · exact isEnforced_of_shape inRange.targets targets
  · exact isEnforced_of_shape inRange.dims dims
  · exact isEnforced_of_shape inRange.origin origin
  · exact isEnforced_of_shape inRange.lengths lengths
  · exact isEnforced_of_slot (inRange.indices target here) ofTarget
  · exact .inl (isSome_dimension?_iff.mpr (inRange.dimensions raw here))
  · exact .inr rfl
  · exact .inr rfl

/-- An action in range meets every condition but those that are left to validation. -/
theorem isEnforced_of_inRange {context : ValidationContext} {checked : Directive}
    (inRange : checked.action.InRange context.arity)
    (member : condition ∈ directive context checked) : IsEnforced condition := by
  obtain ⟨time, name, did⟩ := checked
  rcases List.mem_append.mp member with ofName | member
  · rw [List.mem_singleton.mp ofName]
    exact .inr rfl
  cases did with
  | createGroup =>
    rw [List.mem_singleton.mp member]
    exact .inr rfl
  | addCommand typeName names =>
    obtain ⟨known, distinct⟩ := inRange
    rcases List.mem_append.mp member with ofType | ofNames
    · exact isEnforced_of_commandType known ofType
    · exact isEnforced_of_placeholders distinct (by simp) ofNames
  | bindConstant target value => exact isEnforced_of_slot inRange member
  | bindSequence target initial increment =>
    obtain ⟨inRange, numeric⟩ := inRange
    rcases List.mem_append.mp member with ofTarget | ofBounds
    · exact isEnforced_of_slot inRange ofTarget
    · exact isEnforced_of_bounds numeric ofBounds
  | bindArgument target source =>
    obtain ⟨inRange, sourceInRange⟩ := inRange
    rcases List.mem_append.mp member with ofTarget | ofSource
    · exact isEnforced_of_slot inRange ofTarget
    · exact isEnforced_of_slot sourceInRange ofSource
  | bindLattice rank spec => exact isEnforced_of_lattice inRange member
  | toggleCommand command => exact isEnforced_of_index inRange member
  | toggleAll => cases member
  | switchCommand enabled command => exact isEnforced_of_index inRange member
  | switchAll enabled => cases member
  | executeSequence total period =>
    obtain ⟨⟨positive, fits⟩, notNegative⟩ := inRange
    rcases List.mem_pair.mp member with rfl | rfl
    · exact .inl (by simp [Check.isTotal, positive, fits])
    · exact .inl (decide_eq_true notNegative)

end

end Conditions

end TimedCommands
