import TimedCommands.Proofs.Schedule.FiringOrder
import TimedCommands.Proofs.Validation.Acceptance

/-!
# Admission to a program

Validation carries the names of the groups that it accepts from one directive to the next, so a
verdict might depend on every verdict before it. It does not: a directive is judged as if each
creation before it had been accepted, whether it was or not (`verdicts_judge`). The two differ in
names that are no identifiers only, and a group of such a name is rejected for the name itself.

So the verdict on a creation is settled by the names before it, and the verdict on any other
directive by that directive alone (`validation_splits`).
-/

namespace TimedCommands

namespace ValidationContext

variable {context known expected : ValidationContext} {directive : Directive}

/-- Accepting a directive leaves the legacy rule as it is. -/
theorem legacy_accept (context : ValidationContext) (directive : Directive) :
    (context.accept directive).legacy = context.legacy := by
  rw [accept]
  split <;> rfl

/-- A context after directives that are all taken as accepted, though they may be invalid. -/
def counting (context : ValidationContext) (directives : List Directive) : ValidationContext :=
  directives.foldl accept context

/-- Directives that are all taken as accepted declare all the groups that they create. -/
theorem declared_counting (context : ValidationContext) (directives : List Directive) :
    (context.counting directives).declared =
      context.declared ++ directives.filterMap Directive.creation? := by
  induction directives generalizing context with
  | nil => simp [counting]
  | cons directive rest ih =>
    rw [counting, List.foldl_cons, ← counting, ih, declared_accept, List.append_assoc]
    cases creates : directive.creation? <;> simp [creates]

/-- Directives that are taken as accepted leave the command types and the legacy rule as they
are. -/
theorem settings_counting (context : ValidationContext) (directives : List Directive) :
    (context.counting directives).arity = context.arity ∧
      (context.counting directives).legacy = context.legacy := by
  induction directives generalizing context with
  | nil => exact ⟨rfl, rfl⟩
  | cons directive rest ih =>
    obtain ⟨sameArity, sameLegacy⟩ := ih (context.accept directive)
    exact ⟨sameArity.trans (arity_accept ..), sameLegacy.trans (legacy_accept ..)⟩

/-- What a context has declared matters to no directive but a creation. -/
theorem check_eq_of_settings (sameArity : known.arity = expected.arity)
    (sameLegacy : known.legacy = expected.legacy) (creates : directive.creation? = none) :
    Check.directive known directive = Check.directive expected directive := by
  obtain ⟨time, name, action⟩ := directive
  cases action with
  | createGroup => cases creates
  | _ => simp [Check.directive, Check.action, sameArity, sameLegacy]

/-- A creation is checked for its name, and for whether the name is taken. -/
theorem check_creation {name : GroupName} (creates : directive.creation? = some name) :
    Check.directive context directive =
      (do Check.group name; Check.that (name ∉ context.declared) (.groupInUse name)) := by
  obtain ⟨time, group, action⟩ := directive
  cases action with
  | createGroup =>
    cases creates
    rfl
  | _ => cases creates

/-- A creation is valid exactly if its name is an identifier that is not taken. -/
theorem check_creation_eq_ok_iff {name : GroupName} (creates : directive.creation? = some name) :
    Check.directive context directive = .ok () ↔
      isIdentifier name ∧ name ∉ context.declared := by
  rw [check_creation creates, check_bind_eq_ok_iff, Check.group, Check.that_eq_ok_iff,
    Check.that_eq_ok_iff, decide_eq_true_eq]

/-- Two contexts in which every directive is judged alike: what they have declared differs in names
that are no identifiers only. -/
structure Agrees (left right : ValidationContext) : Prop where
  arity : left.arity = right.arity
  legacy : left.legacy = right.legacy
  declared : ∀ name, isIdentifier name → (name ∈ left.declared ↔ name ∈ right.declared)

/-- A context agrees with itself. -/
theorem Agrees.refl (context : ValidationContext) : context.Agrees context :=
  ⟨rfl, rfl, fun _ _ => Iff.rfl⟩

/-- Contexts that agree judge every directive alike. -/
theorem Agrees.check_eq (agrees : known.Agrees expected) (directive : Directive) :
    Check.directive known directive = Check.directive expected directive := by
  cases creates : directive.creation? with
  | none => exact check_eq_of_settings agrees.arity agrees.legacy creates
  | some name =>
    rw [check_creation creates, check_creation creates]
    by_cases valid : isIdentifier name
    · simp only [agrees.declared name valid]
    · simp [Check.group, Check.that, valid, error_bind]

/-- Judging a directive keeps what is known in agreement with counting it as accepted. -/
theorem Agrees.judged (agrees : known.Agrees expected) (directive : Directive) :
    Agrees
      (match Check.directive known directive with
        | .ok () => known.accept directive
        | .error _ => known)
      (expected.accept directive) := by
  have sameArity := agrees.arity.trans (arity_accept expected directive).symm
  have sameLegacy := agrees.legacy.trans (legacy_accept expected directive).symm
  cases judged : Check.directive known directive with
  | ok _ =>
    refine ⟨(arity_accept ..).trans sameArity, (legacy_accept ..).trans sameLegacy, ?_⟩
    intro name valid
    simp only [declared_accept, List.mem_append, agrees.declared name valid]
  | error reason =>
    refine ⟨sameArity, sameLegacy, fun name valid => ?_⟩
    rw [declared_accept, List.mem_append, Option.mem_toList, ← agrees.declared name valid]
    refine ⟨.inl, ?_⟩
    rintro (member | creates)
    · exact member
    · -- A creation with an identifier is rejected for a name that is declared already.
      by_contra new
      cases judged.symm.trans ((check_creation_eq_ok_iff creates).mpr ⟨valid, new⟩)

/-- Whether a program accepts a directive that stands behind others. A creation needs an
identifier that no creation before it names; any other directive needs to be valid alone. -/
def admits (fresh : ValidationContext) (before : List Directive) (directive : Directive) : Bool :=
  match directive.creation? with
  | some name => isIdentifier name && name ∉ before.filterMap Directive.creation?
  | none => (Check.directive fresh directive).isOk

/-- Behind directives that are taken as accepted, valid is what a program accepts there. -/
theorem isOk_check_counting (isFresh : context.declared = []) (before : List Directive)
    (directive : Directive) :
    (Check.directive (context.counting before) directive).isOk =
      context.admits before directive := by
  rw [admits]
  cases creates : directive.creation? with
  | none =>
    obtain ⟨sameArity, sameLegacy⟩ := settings_counting context before
    rw [check_eq_of_settings sameArity sameLegacy creates]
  | some name =>
    have accepted : Check.directive (context.counting before) directive = .ok () ↔
        isIdentifier name ∧ name ∉ before.filterMap Directive.creation? := by
      rw [check_creation_eq_ok_iff creates, declared_counting, isFresh, List.nil_append]
    cases judged : Check.directive (context.counting before) directive with
    | ok _ => simpa [Except.isOk, Except.toBool] using (accepted.mp judged)
    | error reason =>
      rw [judged] at accepted
      simpa [Except.isOk, Except.toBool] using accepted

end ValidationContext

namespace Validation

variable {known expected : ValidationContext}

/-- Every directive is judged as if each directive before it had been accepted. -/
theorem verdicts_judge (agrees : known.Agrees expected) (directives : List Directive) :
    (judge known directives).verdicts = directives.mapIdx fun position directive =>
      ⟨directive, Check.directive (expected.counting (directives.take position)) directive⟩ := by
  induction directives generalizing known expected with
  | nil => rfl
  | cons directive rest ih =>
    have later := ih (agrees.judged directive)
    rw [List.mapIdx_cons, judge]
    exact congrArg₂ _ (congrArg _ (agrees.check_eq directive)) later

/-- What is declared in the end is what was declared before and what was accepted since. -/
theorem declared_judge (context : ValidationContext) (directives : List Directive) :
    (judge context directives).context.declared =
      context.declared ++ (judge context directives).accepted.filterMap Directive.creation? := by
  induction directives generalizing context with
  | nil => simp [judge, accepted]
  | cons directive rest ih =>
    rw [accepted_judge_cons, judge]
    cases Check.directive context directive with
    | ok _ =>
      simp only [ih, ValidationContext.declared_accept, List.append_assoc]
      cases creates : directive.creation? <;> simp [creates]
    | error _ => exact ih context

/-- What is accepted keeps its order. -/
theorem accepted_judge_sublist (context : ValidationContext) (directives : List Directive) :
    (judge context directives).accepted.Sublist directives := by
  induction directives generalizing context with
  | nil => exact .slnil
  | cons directive rest ih =>
    rw [accepted_judge_cons]
    cases Check.directive context directive with
    | ok _ => exact (ih _).cons_cons directive
    | error _ => exact (ih context).cons directive

/-- Accepted are the directives whose check has passed, in order. -/
theorem accepted_eq (validation : Validation) :
    validation.accepted =
      (validation.verdicts.filter fun verdict => verdict.check.isOk).map (·.directive) := by
  rw [accepted]
  induction validation.verdicts with
  | nil => rfl
  | cons verdict rest ih =>
    obtain ⟨directive, check⟩ := verdict
    cases check with
    | ok _ => exact congrArg (directive :: ·) ih
    | error _ => exact ih

/-- Rejected are the directives whose check has not passed, in order. -/
theorem map_directive_rejected (validation : Validation) :
    validation.rejected.map (·.directive) =
      (validation.verdicts.filter fun verdict => !verdict.check.isOk).map (·.directive) := by
  rw [rejected]
  induction validation.verdicts with
  | nil => rfl
  | cons verdict rest ih =>
    obtain ⟨directive, check⟩ := verdict
    cases check with
    | ok _ => exact ih
    | error _ => exact congrArg (directive :: ·) ih

end Validation

/-- Validation splits a program, in firing order, into what it accepts and what it rejects, and
nothing is lost. A directive that creates no group is accepted if and only if it is valid in the
fresh context, whatever else stands in the program; one that creates a group is accepted if and
only if its name is an identifier and no creation of that name stands before it. The groups that
are declared afterwards are those that accepted directives create, in order and each once. -/
theorem validation_splits (arity : ArityLookup) (legacy : Bool) (directives : List Directive) :
    let fresh := ValidationContext.fresh arity true legacy
    let order := firingOrder directives
    let validation := Validation.run fresh directives
    let isAdmitted := fun (standing : Directive × Nat) =>
      fresh.admits (order.take standing.2) standing.1
    (InFiringOrder order ∧
        ∀ time : Time, order.filter (·.time = time) = directives.filter (·.time = time)) ∧
      validation.accepted.Sublist order ∧
      validation.accepted = (order.zipIdx.filter isAdmitted).map Prod.fst ∧
      validation.rejected.map (·.directive) =
        (order.zipIdx.filter fun standing => !isAdmitted standing).map Prod.fst ∧
      validation.context.declared = validation.accepted.filterMap Directive.creation? ∧
      validation.context.declared.Nodup := by
  intro fresh order validation isAdmitted
  have isJudged : validation = Validation.judge fresh order := rfl
  have verdicts : validation.verdicts = order.zipIdx.map fun standing =>
      ⟨standing.1, Check.directive (fresh.counting (order.take standing.2)) standing.1⟩ := by
    rw [isJudged, Validation.verdicts_judge (.refl fresh), List.mapIdx_eq_zipIdx_map]
  have judgedAlike (standing : Directive × Nat) :
      (Check.directive (fresh.counting (order.take standing.2)) standing.1).isOk =
        isAdmitted standing :=
    ValidationContext.isOk_check_counting rfl _ _
  have declared : validation.context.declared =
      validation.accepted.filterMap Directive.creation? := by
    rw [isJudged]
    exact Validation.declared_judge fresh order
  refine ⟨⟨inFiringOrder_firingOrder directives, filter_time_firingOrder directives⟩, ?_, ?_, ?_,
    declared, ?_⟩
  · rw [isJudged]
    exact Validation.accepted_judge_sublist fresh order
  · rw [Validation.accepted_eq, verdicts, List.filter_map, List.map_map]
    simp only [Function.comp_def, judgedAlike]
  · rw [Validation.map_directive_rejected, verdicts, List.filter_map, List.map_map]
    simp only [Function.comp_def, judgedAlike]
  · rw [declared]
    exact (Validation.admissible_accepted fresh directives).distinct

end TimedCommands
