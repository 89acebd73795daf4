import TimedCommands.Proofs.Directive.Range
import TimedCommands.Proofs.Outcome
import TimedCommands.Validation

/-!
# What acceptance promises

A directive that validation accepts is in range, and no accepted directive creates a group
that was declared before it (`admissible_accepted`). `Admissible` says this of a list of
directives and the names that are taken before the first of them. It is stated so that it can
be carried along: what holds of a list beside some names holds of its rest beside these and
the name that its first directive may have added (`admissible_cons_iff`).
-/

namespace TimedCommands

namespace Check

variable {reason : Reason} {condition : Bool} {what : String} {raw : Int64}

/-- A check of one condition passes exactly if the condition holds. -/
@[simp] theorem that_eq_ok_iff : that condition reason = .ok () ↔ condition = true := by
  cases condition <;> simp [that]

/-- An index is valid exactly if it is a count. -/
@[simp] theorem index_eq_ok_iff : index what raw = .ok () ↔ IsCount raw := by
  rw [index, that_eq_ok_iff, isSome_ofRaw?_iff]

/-- The command index of a valid slot is a count. -/
theorem isCount_of_slot {target : RawSlot} (valid : slot what target = .ok ()) :
    IsCount target.command := by
  obtain ⟨valid, -⟩ := check_bind_eq_ok_iff.mp valid
  exact index_eq_ok_iff.mp valid

/-- Valid placeholders are distinct, and none has been seen before. -/
theorem placeholders_eq_ok {seen names : List Placeholder}
    (valid : placeholders seen names = .ok ()) :
    names.Nodup ∧ ∀ name ∈ names, name ∉ seen := by
  rw [← firstRepeated?_eq_none_iff]
  induction names generalizing seen with
  | nil => rfl
  | cons name rest ih =>
    obtain ⟨-, valid⟩ := check_bind_eq_ok_iff.mp valid
    obtain ⟨new, valid⟩ := check_bind_eq_ok_iff.mp valid
    have new : name ∉ seen := by simpa using new
    rw [firstRepeated?, if_neg new, ih valid]

/-- A valid type is known and has as many placeholders as it is given. -/
theorem arity_of_commandType {arity : ArityLookup} {typeName : String} {found : Nat}
    (valid : commandType arity typeName found = .ok ()) : arity typeName = some found := by
  rw [commandType] at valid
  split at valid
  case h_1 => cases valid
  case h_2 expected registered =>
    have same : found = expected := by simpa using valid
    rw [registered, same]

/-- Valid bounds are those of a progression. -/
theorem isSome_of_bounds {legacy : Bool} {initial increment : Value}
    (valid : bounds legacy initial increment = .ok ()) :
    (Progression.ofValues? initial increment).isSome := by
  rw [bounds] at valid
  split at valid
  · cases valid
  · next rule => simp [rule]
  · next rule => simp [rule]

/-- A list has a valid shape exactly if it has an entry for each axis. -/
theorem shape_eq_ok_iff {α : Type} {rank : Rank} {entries : List α} :
    shape rank what entries = .ok () ↔ entries.length = rank.axes := by
  simp [shape]

/-- A valid lattice is in range. -/
theorem inRange_of_lattice {rank : Rank} {spec : LatticeSpec}
    (valid : lattice rank spec = .ok ()) : spec.InRange rank := by
  obtain ⟨targets, valid⟩ := check_bind_eq_ok_iff.mp valid
  obtain ⟨dims, valid⟩ := check_bind_eq_ok_iff.mp valid
  obtain ⟨origin, valid⟩ := check_bind_eq_ok_iff.mp valid
  obtain ⟨lengths, valid⟩ := check_bind_eq_ok_iff.mp valid
  obtain ⟨indices, valid⟩ := check_bind_eq_ok_iff.mp valid
  obtain ⟨dimensions, -⟩ := check_bind_eq_ok_iff.mp valid
  exact {
    targets := shape_eq_ok_iff.mp targets
    dims := shape_eq_ok_iff.mp dims
    origin := shape_eq_ok_iff.mp origin
    lengths := shape_eq_ok_iff.mp lengths
    indices := fun target member => isCount_of_slot (forM_eq_ok_iff.mp indices target member)
    dimensions := fun raw member => by
      simpa [isSome_dimension?_iff] using forM_eq_ok_iff.mp dimensions raw member }

/-- A valid action is in range. -/
theorem inRange_of_action {context : ValidationContext} {name : GroupName} {action : Action}
    (valid : Check.action context name action = .ok ()) : action.InRange context.arity := by
  cases action with
  | createGroup => trivial
  | addCommand typeName names =>
    obtain ⟨known, valid⟩ := check_bind_eq_ok_iff.mp valid
    exact ⟨arity_of_commandType known, (placeholders_eq_ok valid).1⟩
  | bindConstant target value => exact isCount_of_slot valid
  | bindSequence target initial increment =>
    obtain ⟨validTarget, valid⟩ := check_bind_eq_ok_iff.mp valid
    exact ⟨isCount_of_slot validTarget, isSome_of_bounds valid⟩
  | bindArgument target source =>
    obtain ⟨validTarget, valid⟩ := check_bind_eq_ok_iff.mp valid
    exact ⟨isCount_of_slot validTarget, isCount_of_slot valid⟩
  | bindLattice rank spec => exact inRange_of_lattice valid
  | toggleCommand command => exact index_eq_ok_iff.mp valid
  | toggleAll => trivial
  | switchCommand enabled command => exact index_eq_ok_iff.mp valid
  | switchAll enabled => trivial
  | executeSequence total period =>
    obtain ⟨counts, valid⟩ := check_bind_eq_ok_iff.mp valid
    exact ⟨by simpa [isTotal, IsCount] using counts, by simpa using valid⟩

end Check

/-- The name of the group that a directive creates, if it creates one. -/
def Directive.creation? (directive : Directive) : Option GroupName :=
  match directive.action with
  | .createGroup => some directive.group
  | _ => none

/-- Accepting a directive declares the group that it creates, and no other. -/
theorem ValidationContext.declared_accept (context : ValidationContext) (directive : Directive) :
    (context.accept directive).declared = context.declared ++ directive.creation?.toList := by
  rw [accept, Directive.creation?]
  cases directive.action <;> simp

/-- Accepting a directive leaves the command types as they are. -/
theorem ValidationContext.arity_accept (context : ValidationContext) (directive : Directive) :
    (context.accept directive).arity = context.arity := by
  rw [accept]
  split <;> rfl

/-- A valid creation is of a group that is not declared yet. -/
theorem Check.new_of_directive {context : ValidationContext} {directive : Directive}
    {name : GroupName} (valid : Check.directive context directive = .ok ())
    (creates : directive.creation? = some name) : name ∉ context.declared := by
  obtain ⟨time, group, action⟩ := directive
  obtain ⟨-, valid⟩ := check_bind_eq_ok_iff.mp valid
  cases action with
  | createGroup =>
    cases creates
    simpa [Check.action] using valid
  | _ => cases creates

/-- The action of a valid directive is in range. -/
theorem Check.inRange_of_directive {context : ValidationContext} {directive : Directive}
    (valid : Check.directive context directive = .ok ()) :
    directive.action.InRange context.arity := by
  obtain ⟨-, valid⟩ := check_bind_eq_ok_iff.mp valid
  exact inRange_of_action valid

/-- Directives in range that create no group of a name that is taken, and none twice. -/
structure Admissible (arity : ArityLookup) (taken : List GroupName)
    (directives : List Directive) : Prop where
  inRange : ∀ directive ∈ directives, directive.action.InRange arity
  distinct : (directives.filterMap Directive.creation?).Nodup
  new : ∀ name ∈ directives.filterMap Directive.creation?, name ∉ taken

section

variable {arity : ArityLookup} {taken : List GroupName} {directive : Directive}
  {directives rest : List Directive}

/-- Directives are admissible in any order, if they are in one. -/
theorem Admissible.perm {other : List Directive} (admissible : Admissible arity taken directives)
    (same : directives.Perm other) : Admissible arity taken other where
  inRange directive member := admissible.inRange directive (same.mem_iff.mpr member)
  distinct := (same.filterMap Directive.creation?).nodup_iff.mp admissible.distinct
  new name member := admissible.new name ((same.filterMap Directive.creation?).mem_iff.mpr member)

/-- A part of admissible directives is admissible. -/
theorem Admissible.sublist {other : List Directive} (admissible : Admissible arity taken directives)
    (part : other.Sublist directives) : Admissible arity taken other where
  inRange directive member := admissible.inRange directive (part.mem member)
  distinct := (part.filterMap Directive.creation?).nodup admissible.distinct
  new name member := admissible.new name ((part.filterMap Directive.creation?).mem member)

/-- A directive in front of others is admissible if its group is new and theirs are new behind
it. -/
theorem admissible_cons_iff :
    Admissible arity taken (directive :: rest) ↔
      directive.action.InRange arity ∧ (∀ name, directive.creation? = some name → name ∉ taken) ∧
        Admissible arity (taken ++ directive.creation?.toList) rest := by
  constructor
  · rintro ⟨inRange, distinct, new⟩
    cases creates : directive.creation? with
    | none =>
      rw [List.filterMap_cons_none creates] at distinct new
      exact ⟨inRange directive (by simp), nofun,
        fun other member => inRange other (by simp [member]), distinct, by simpa using new⟩
    | some name =>
      rw [List.filterMap_cons_some creates] at distinct new
      obtain ⟨apart, distinct⟩ := List.nodup_cons.mp distinct
      refine ⟨inRange directive (by simp), ?_, fun other member => inRange other (by simp [member]),
        distinct, fun other member => ?_⟩
      · rintro _ ⟨⟩
        exact new name (by simp)
      · have notFirst : other ≠ name := fun same => apart (same ▸ member)
        simp [new other (by simp [member]), notFirst]
  · rintro ⟨inRange, new, admissible⟩
    refine ⟨List.forall_mem_cons.mpr ⟨inRange, admissible.inRange⟩, ?_, ?_⟩
    · cases creates : directive.creation? with
      | none => simpa [List.filterMap_cons_none creates] using admissible.distinct
      | some name =>
        rw [List.filterMap_cons_some creates, List.nodup_cons]
        refine ⟨fun repeated => ?_, admissible.distinct⟩
        exact absurd (by simp [creates]) (admissible.new name repeated)
    · intro name member
      rcases List.mem_filterMap.mp member with ⟨other, here, creates⟩
      rcases List.mem_cons.mp here with rfl | later
      · exact new name creates
      · have apart := admissible.new name (List.mem_filterMap.mpr ⟨other, later, creates⟩)
        exact fun used => apart (by simp [used])

end

namespace Validation

/-- A valid directive is accepted, and the next is judged with what it declares. -/
theorem accepted_judge_cons (context : ValidationContext) (directive : Directive)
    (rest : List Directive) :
    (judge context (directive :: rest)).accepted =
      match Check.directive context directive with
      | .ok () => directive :: (judge (context.accept directive) rest).accepted
      | .error _ => (judge context rest).accepted := by
  rw [judge, accepted]
  cases Check.directive context directive <;> rfl

/-- What is accepted in a context is admissible there. -/
theorem admissible_accepted_judge (context : ValidationContext) (directives : List Directive) :
    Admissible context.arity context.declared (judge context directives).accepted := by
  induction directives generalizing context with
  | nil => exact ⟨nofun, .nil, nofun⟩
  | cons directive rest ih =>
    rw [accepted_judge_cons]
    cases valid : Check.directive context directive with
    | error reason => exact ih context
    | ok _ =>
      refine admissible_cons_iff.mpr ⟨Check.inRange_of_directive valid,
        fun name => Check.new_of_directive valid, ?_⟩
      have later := ih (context.accept directive)
      rwa [ValidationContext.declared_accept, ValidationContext.arity_accept] at later

/-- Validation that is switched on judges the directives in firing order. -/
theorem run_of_enabled {context : ValidationContext} (enabled : context.enabled = true)
    (directives : List Directive) : run context directives = judge context (firingOrder directives) := by
  rw [run, if_pos enabled]

/-- Validation that is switched off gives no verdicts. -/
theorem accepted_of_disabled {context : ValidationContext} (disabled : context.enabled = false)
    (directives : List Directive) : (run context directives).accepted = [] := by
  simp [run, disabled, accepted, Verdict.accepted?]

/-- The accepted directives are in range and create no group that is declared already, and
none twice. -/
theorem admissible_accepted (context : ValidationContext) (directives : List Directive) :
    Admissible context.arity context.declared (run context directives).accepted := by
  cases enabled : context.enabled with
  | true =>
    rw [run_of_enabled enabled]
    exact admissible_accepted_judge context _
  | false =>
    rw [accepted_of_disabled enabled]
    exact ⟨nofun, .nil, nofun⟩

end Validation

end TimedCommands
