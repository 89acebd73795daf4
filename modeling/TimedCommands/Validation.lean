import TimedCommands.Directive.Line
import TimedCommands.Log

/-!
# Validation

Before a run, every directive is checked on its own, and a group may be created only
once. Directives are considered in firing order, so of two directives that create a
group of the same name the one that fires first is accepted. A rejected directive is
kept with its reason and never scheduled; it has no influence on the others.
-/

namespace TimedCommands

/-- Why a directive is rejected. -/
inductive Reason where
  | groupsDisabled
  | badIdentifier (what name : String)
  | groupInUse (group : GroupName)
  | unknownCommandType (typeName : String)
  | arityMismatch (typeName : String) (expected found : Nat)
  | repeatedPlaceholder (placeholder : Placeholder)
  | badIndex (what : String) (raw : Int64)
  | textBound
  | negativeInitial (initial : Float)
  | negativeIncrement (increment : Float)
  | latticeShape (rank : Rank) (what : String) (found : Nat)
  | badDimension (raw : Int64)
  | badOrigin (origin : Float)
  | badLength (length : Float)
  | badTotal (raw : Int64)
  | badPeriod (raw : Int64)
  deriving Repr, DecidableEq

/-- The wording of a reason. -/
def Reason.message : Reason → String
  | groupsDisabled => "command groups are disabled"
  | badIdentifier what name => s!"{what} '{name}' is not a valid identifier"
  | groupInUse group => s!"group name '{group}' is already in use"
  | unknownCommandType typeName =>
    s!"command type '{typeName}' cannot be used in a command group"
  | arityMismatch typeName expected found =>
    s!"command type '{typeName}' takes {expected} arguments, got {found} placeholders"
  | repeatedPlaceholder placeholder => s!"placeholder '{placeholder}' declared more than once"
  | badIndex what raw => s!"{what} must be >= 1, got {raw.toInt}"
  | textBound => "sequence initial value and increment must be numeric"
  | negativeInitial initial =>
    s!"real sequence initial value must be >= 0, got {RealFormat.plain.write initial}"
  | negativeIncrement increment =>
    s!"real sequence increment must be >= 0, got {RealFormat.plain.write increment}"
  | latticeShape rank what found => s!"{rank.axes}D lattice needs {rank.axes} {what}, got {found}"
  | badDimension raw => s!"lattice dimensions must be >= 1, got {raw.toInt}"
  | badOrigin origin => s!"lattice origin must be >= 0, got {RealFormat.plain.write origin}"
  | badLength length => s!"lattice lengths must be >= 0, got {RealFormat.plain.write length}"
  | badTotal raw => s!"total repetitions must be between 1 and {maxCount}, got {raw.toInt}"
  | badPeriod raw => s!"period must be >= 0, got {raw.toInt}"

/-- A rejected directive and the reason. -/
structure Rejection where
  directive : Directive
  reason : Reason
  deriving Repr, DecidableEq

/-- The wording of a rejection. -/
def Rejection.message (rejection : Rejection) : String :=
  s!"invalid directive `{rejection.directive.line}`: {rejection.reason.message}"

/-- What validation knows: the command types, whether groups are available at all, whether
negative bounds of real sequences are rejected, and the groups created so far. -/
structure ValidationContext where
  arity : ArityLookup
  enabled : Bool
  legacy : Bool
  declared : List GroupName

namespace ValidationContext

/-- A context in which no group was created yet. -/
def fresh (arity : ArityLookup) (enabled legacy : Bool) : ValidationContext :=
  ⟨arity, enabled, legacy, []⟩

/-- Remembers the group that an accepted directive creates. -/
def accept (context : ValidationContext) (directive : Directive) : ValidationContext :=
  match directive.action with
  | .createGroup => { context with declared := context.declared ++ [directive.group] }
  | _ => context

end ValidationContext

/-- The outcome of a check: nothing, or the first reason against the directive. -/
abbrev Check := Except Reason Unit

namespace Check

/-- Fails with a reason unless a condition holds. -/
def that (condition : Bool) (reason : Reason) : Check := if condition then .ok () else .error reason

/-- A group must have an identifier as its name. -/
def group (name : GroupName) : Check := that (isIdentifier name) (.badIdentifier "group name" name)

/-- A placeholder must be an identifier. -/
def placeholder (name : Placeholder) : Check :=
  that (isIdentifier name) (.badIdentifier "placeholder" name)

/-- A command index must be in range. -/
def index (what : String) (raw : Int64) : Check :=
  that (CommandIndex.ofRaw? raw).isSome (.badIndex what raw)

/-- Both parts of a slot. -/
def slot (what : String) (slot : RawSlot) : Check := do
  index what slot.command
  placeholder slot.placeholder

/-- Placeholders are identifiers, none twice; each is checked for both before the next. -/
def placeholders (seen : List Placeholder) : List Placeholder → Check
  | [] => .ok ()
  | name :: rest => do
    placeholder name
    that (name ∉ seen) (.repeatedPlaceholder name)
    placeholders (name :: seen) rest

/-- A command type is known and takes as many arguments as there are placeholders. -/
def commandType (arity : ArityLookup) (typeName : String) (found : Nat) : Check :=
  match arity typeName with
  | none => .error (.unknownCommandType typeName)
  | some expected => that (found = expected) (.arityMismatch typeName expected found)

/-- Sequence bounds are numeric; where `legacy` asks for it, real ones are not negative. -/
def bounds (legacy : Bool) (initial increment : Value) : Check :=
  match Progression.ofValues? initial increment with
  | none => .error .textBound
  | some (.integer _ _) => .ok ()
  | some (.real initial increment) => do
    that (!(legacy && initial < 0.0)) (.negativeInitial initial)
    that (!(legacy && increment < 0.0)) (.negativeIncrement increment)

/-- A lattice list has one entry per axis. -/
def shape {α : Type} (rank : Rank) (what : String) (entries : List α) : Check :=
  that (entries.length = rank.axes) (.latticeShape rank what entries.length)

/-- A real is finite and not negative. -/
def isExtent (number : Float) : Bool := number.isFinite && !(number < 0.0)

/-- A lattice has the shape of its rank and every entry in range. -/
def lattice (rank : Rank) (spec : LatticeSpec) : Check := do
  shape rank "targets" spec.targets
  shape rank "dimensions" spec.dims
  shape rank "origin" spec.origin
  shape rank "lengths" spec.lengths
  spec.targets.forM (slot "command index")
  spec.dims.forM fun raw => that (LatticeSpec.dimension? raw).isSome (.badDimension raw)
  spec.origin.forM fun origin => that (isExtent origin) (.badOrigin origin)
  spec.lengths.forM fun length => that (isExtent length) (.badLength length)

/-- A repetition count is at least one and fits 32 bits. -/
def isTotal (raw : Int64) : Bool := 1 ≤ raw.toInt && raw.toInt ≤ maxCount

/-- The fields of an action are in range. -/
def action (context : ValidationContext) (name : GroupName) : Action → Check
  | .createGroup => that (name ∉ context.declared) (.groupInUse name)
  | .addCommand typeName names => do
    commandType context.arity typeName names.length
    placeholders [] names
  | .bindConstant target _ => slot "command index" target
  | .bindSequence target initial increment => do
    slot "command index" target
    bounds context.legacy initial increment
  | .bindArgument target source => do
    slot "command index" target
    slot "source command index" source
  | .bindLattice rank spec => lattice rank spec
  | .toggleCommand command => index "command index" command
  | .toggleAll => .ok ()
  | .switchCommand _ command => index "command index" command
  | .switchAll _ => .ok ()
  | .executeSequence total period => do
    that (isTotal total) (.badTotal total)
    that (0 ≤ period.toInt) (.badPeriod period)

/-- A directive is valid on its own, given the groups that were created before it. -/
def directive (context : ValidationContext) (directive : Directive) : Check := do
  group directive.group
  action context directive.group directive.action

end Check

/-- The verdict on one directive of a program. -/
structure Verdict where
  directive : Directive
  check : Check
  deriving Repr

namespace Verdict

/-- The directive, if it is accepted. -/
def accepted? (verdict : Verdict) : Option Directive :=
  match verdict.check with
  | .ok () => some verdict.directive
  | .error _ => none

/-- The rejection, if the directive is rejected. -/
def rejection? (verdict : Verdict) : Option Rejection :=
  match verdict.check with
  | .ok () => none
  | .error reason => some ⟨verdict.directive, reason⟩

/-- The log record of a verdict. -/
def record (verdict : Verdict) : LogRecord :=
  match verdict.check with
  | .ok () => ⟨.debug, "directive accepted", [("directive", verdict.directive.line)]⟩
  | .error reason =>
    ⟨.warning, "directive rejected",
      [("directive", verdict.directive.line), ("reason", reason.message)]⟩

end Verdict

/-- The outcome of validating a program: a verdict on each directive in firing order, and
what is known afterwards. -/
structure Validation where
  verdicts : List Verdict
  context : ValidationContext

namespace Validation

/-- Judges directives one after the other, remembering the groups they create. -/
def judge : ValidationContext → List Directive → Validation
  | context, [] => ⟨[], context⟩
  | context, directive :: rest =>
    let check := Check.directive context directive
    let known := match check with
      | .ok () => context.accept directive
      | .error _ => context
    let later := judge known rest
    ⟨⟨directive, check⟩ :: later.verdicts, later.context⟩

/-- Validates a program. Without command groups, every directive is rejected. -/
def run (context : ValidationContext) (directives : List Directive) : Validation :=
  let ordered := firingOrder directives
  if context.enabled then judge context ordered
  else ⟨ordered.map fun directive => ⟨directive, .error .groupsDisabled⟩, context⟩

/-- The accepted directives, in firing order. -/
def accepted (validation : Validation) : List Directive :=
  validation.verdicts.filterMap Verdict.accepted?

/-- The rejected directives with their reasons, in firing order. -/
def rejected (validation : Validation) : List Rejection :=
  validation.verdicts.filterMap Verdict.rejection?

/-- The log of validating a program: one record for each directive, or a single one if
command groups are disabled. -/
def records (validation : Validation) : List LogRecord :=
  if validation.context.enabled then validation.verdicts.map Verdict.record
  else [⟨.warning, "command groups are disabled",
    [("directives", toString validation.verdicts.length)]⟩]

end Validation

end TimedCommands
