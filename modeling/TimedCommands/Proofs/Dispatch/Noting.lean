import TimedCommands.Proofs.Schedule.InPlace

/-!
# Logging while firing

`RunState.fire` answers with the effects of a directive, and these are logged when the step is told;
a fault comes without effects, so by its very type it has logged nothing before. An engine that logs
as it goes has to see to that itself, above all where a lattice logs every axis in the loop that
binds it. `Noting.fire` is that engine: it works in place, and what it has changed and logged stays
if a later check fails. It comes to the records of the effects if the directive succeeds, and to no
record at all if it fails (`run_fire`).

What those records are is told by the directive: one for each axis of a lattice, and one otherwise
(`Directive.Achieves.length_effects`).
-/

namespace TimedCommands

/-- What an engine works on that logs as it goes: what has been built, and the log. -/
structure Workbench where
  state : RunState
  log : Array LogRecord

/-- An operation in place that logs as it goes. If it fails, the changes and the records that it has
made so far remain. -/
abbrev Noting := EStateM Fault Workbench

namespace Noting

variable {α β : Type}

/-- Carries out an operation in place, which logs nothing. -/
def build (operation : InPlace α) : Noting α := fun bench =>
  match operation.run bench.state with
  | .ok value state => .ok value { bench with state }
  | .error fault state => .error fault { bench with state }

/-- Logs an effect of a directive. -/
def note (directive : Directive) (effect : Effect) : Noting Unit :=
  modify fun bench => { bench with log := bench.log.push (effect.record directive) }

/-- Binds axes one after the other, and logs each of them. -/
def bindAxes (directive : Directive) : List LatticeSpec.AxisBinding → Noting Unit
  | [] => pure ()
  | binding :: rest => do
    build (InPlace.bindSlot directive.group binding.slot (.coordinate binding.coordinate))
    note directive (.axisBound binding.slot binding.coordinate.axis)
    bindAxes directive rest

/-- Logs effects one after the other. -/
def noteAll (directive : Directive) : List Effect → Noting Unit
  | [] => pure ()
  | effect :: rest => do
    note directive effect
    noteAll directive rest

/-- Carries out a directive at its time. -/
def fire (arity : ArityLookup) (directive : Directive) : Noting Unit :=
  match directive.action with
  | .bindLattice rank spec => do
    let bindings ← build (InPlace.check (RunState.checkLattice rank spec))
    let group ← build (InPlace.find directive.group)
    build (InPlace.check (RunState.checkDeclared group (bindings.map (·.slot))))
    bindAxes directive bindings
  | _ => do
    let effects ← build (InPlace.fire arity directive)
    noteAll directive effects

variable {directive : Directive} {state after : RunState} {log : Array LogRecord}

/-- The log with the records of further effects of a directive. -/
def noted (directive : Directive) (log : Array LogRecord) (effects : List Effect) :
    Array LogRecord :=
  (effects.map (Effect.record directive)).foldl Array.push log

/-- Effects that are logged one after the other are all logged, and nothing else happens. -/
theorem run_noteAll (directive : Directive) (effects : List Effect) (state : RunState)
    (log : Array LogRecord) :
    (noteAll directive effects).run ⟨state, log⟩ =
      .ok () ⟨state, noted directive log effects⟩ := by
  induction effects generalizing log with
  | nil => rfl
  | cons effect rest ih => exact ih (log.push (effect.record directive))

/-- An operation in place that succeeds is followed by the next, with the same log. -/
theorem run_build_of_ok {operation : InPlace α} {value : α}
    (succeeded : operation.run state = .ok value after) (next : α → Noting β) :
    (build operation >>= next).run ⟨state, log⟩ = (next value).run ⟨after, log⟩ := by
  change EStateM.bind (build operation) next ⟨state, log⟩ = _
  rw [EStateM.bind, build, succeeded]
  rfl

/-- An operation in place that fails keeps its changes and logs nothing. -/
theorem run_build_of_error {operation : InPlace α} {fault : Fault}
    (failed : operation.run state = .error fault after) (next : α → Noting β) :
    (build operation >>= next).run ⟨state, log⟩ = .error fault ⟨after, log⟩ := by
  change EStateM.bind (build operation) next ⟨state, log⟩ = _
  rw [EStateM.bind, build, failed]

/-- An operation in place succeeds if its parts do, the second where the first has got. -/
theorem exists_of_run_bind {first : InPlace α} {next : α → InPlace β} {value : β}
    (succeeded : (first >>= next).run state = .ok value after) :
    ∃ answer between, first.run state = .ok answer between ∧
      (next answer).run between = .ok value after := by
  change EStateM.bind first next state = _ at succeeded
  rw [EStateM.bind] at succeeded
  cases ran : first state with
  | ok answer between =>
    rw [ran] at succeeded
    exact ⟨answer, between, ran, succeeded⟩
  | error fault between =>
    rw [ran] at succeeded
    cases succeeded

/-- Axes that are bound without a failure are all logged. -/
theorem run_bindAxes {bindings : List LatticeSpec.AxisBinding} {effects : List Effect}
    (bound : (InPlace.bindAxes directive.group bindings).run state = .ok effects after) :
    (bindAxes directive bindings).run ⟨state, log⟩ =
      .ok () ⟨after, noted directive log effects⟩ := by
  induction bindings generalizing state effects log with
  | nil =>
    cases bound
    rfl
  | cons binding rest ih =>
    rw [InPlace.bindAxes, List.mapM_cons, bind_assoc] at bound
    obtain ⟨⟨⟩, between, first, bound⟩ := exists_of_run_bind bound
    rw [pure_bind] at bound
    obtain ⟨more, last, others, bound⟩ := exists_of_run_bind bound
    cases bound
    rw [bindAxes, run_build_of_ok first]
    exact ih others

/-- What is left of a directive: what it has changed and the records of its effects if it succeeds,
and neither if it fails. -/
def allOrNothing (directive : Directive) (state : RunState) (log : Array LogRecord) :
    Except Fault (RunState × List Effect) → EStateM.Result Fault Workbench Unit
  | .ok (changed, effects) => .ok () ⟨changed, noted directive log effects⟩
  | .error fault => .error fault ⟨state, log⟩

/-- A check in front of an operation changes nothing. -/
theorem run_check_bind {next : α → Noting Unit}
    {rest : α → Except Fault (RunState × List Effect)} (outcome : Except Fault α)
    (agrees : ∀ value, outcome = .ok value →
      (next value).run ⟨state, log⟩ = allOrNothing directive state log (rest value)) :
    (build (InPlace.check outcome) >>= next).run ⟨state, log⟩ =
      allOrNothing directive state log (outcome >>= rest) := by
  cases passed : outcome with
  | ok value => exact agrees value passed
  | error fault => rfl

/-- No axis fails behind one that has been logged. -/
theorem run_fire_lattice {rank : Rank} {spec : LatticeSpec}
    (isLattice : directive.action = .bindLattice rank spec) (arity : ArityLookup)
    (state : RunState) (log : Array LogRecord) :
    (fire arity directive).run ⟨state, log⟩ =
      allOrNothing directive state log (state.bindLattice directive.group rank spec) := by
  rw [fire, isLattice, RunState.bindLattice]
  refine run_check_bind _ fun bindings checked => ?_
  refine run_check_bind (state.registry.get directive.group) fun group found => ?_
  refine run_check_bind _ fun _ passed => ?_
  have declared : ∀ binding ∈ bindings, group.declares binding.slot := by
    simpa using RunState.checkDeclared_eq_ok_iff.mp passed
  have some : bindings ≠ [] := RunState.ne_nil_of_checkLattice checked
  rw [run_bindAxes (InPlace.run_bindAxes some found declared),
    Group.foldlM_bind_of_declares declared]
  rfl

/-- A directive that logs only behind its work leaves what it leaves otherwise and its records. -/
theorem run_build_fire (arity : ArityLookup) (directive : Directive) (state : RunState)
    (log : Array LogRecord) :
    (build (InPlace.fire arity directive) >>= noteAll directive).run ⟨state, log⟩ =
      allOrNothing directive state log (state.fire arity directive) := by
  have inPlace := InPlace.run_fire arity state directive
  cases fired : state.fire arity directive with
  | ok result =>
    rw [fired] at inPlace
    rw [run_build_of_ok inPlace, run_noteAll]
    rfl
  | error fault =>
    rw [fired] at inPlace
    exact run_build_of_error inPlace _

/-- Logged as it goes, a directive leaves what it leaves otherwise, and the records of its effects.
If it fails, it has changed nothing and logged nothing. -/
theorem run_fire (arity : ArityLookup) (directive : Directive) (state : RunState)
    (log : Array LogRecord) :
    (fire arity directive).run ⟨state, log⟩ =
      allOrNothing directive state log (state.fire arity directive) := by
  obtain ⟨time, name, action⟩ := directive
  cases action with
  | bindLattice rank spec => exact run_fire_lattice rfl arity state log
  | _ => exact run_build_fire ..

end Noting

/-! What the effects of a directive are. -/

/-- How many effects a directive has that succeeds: one for each axis of a lattice. -/
def Action.effectCount : Action → Nat
  | bindLattice rank _ => rank.axes
  | _ => 1

/-- The effects of a directive that succeeds. -/
inductive Directive.Achieves (directive : Directive) : List Effect → Prop where
  | started {sequence : ScheduledSequence} (starts : directive.sequence? = some sequence) :
      Achieves directive [.sequenceScheduled sequence.total sequence.period sequence.start]
  | single {effect : Effect} (starts : directive.sequence? = none)
      (other : ∀ total period start, effect ≠ .sequenceScheduled total period start)
      (counts : directive.action.effectCount = 1) :
      Achieves directive [effect]
  | axes {rank : Rank} {spec : LatticeSpec} {bindings : List LatticeSpec.AxisBinding}
      (isLattice : directive.action = .bindLattice rank spec) (aims : spec.Aims rank bindings) :
      Achieves directive
        (bindings.map fun binding => .axisBound binding.slot binding.coordinate.axis)

namespace RunState

variable {arity : ArityLookup} {state changed : RunState} {directive : Directive}
  {effects : List Effect}

/-- A directive that fires has the effects of its kind. -/
theorem achieves_of_fire (fired : state.fire arity directive = .ok (changed, effects)) :
    directive.Achieves effects := by
  cases fire_eq_ok_iff.mp fired with
  | bindLattice checked found declared binds =>
    have aims := LatticeSpec.aims_of_axisBindings? (axisBindings?_of_checkLattice checked)
    exact .axes rfl aims
  | @executeSequence time name total period group repetitions spacing found counted spaced =>
    rw [(checkTotal_eq_ok_iff.mp counted).2, (checkPeriod_eq_ok_iff.mp spaced).2]
    have starts : Directive.sequence? ⟨time, name, .executeSequence total period⟩ =
      some (.begin name total.toInt.toNat period.toInt.toNat time) := rfl
    exact .started starts
  | _ => exact .single rfl nofun rfl

end RunState

namespace Directive.Achieves

variable {directive : Directive} {effects : List Effect}

/-- How many effects there are is told by the directive. -/
theorem length_effects (achieves : directive.Achieves effects) :
    effects.length = directive.action.effectCount := by
  cases achieves with
  | started starts =>
    obtain ⟨time, name, action⟩ := directive
    cases action with
    | executeSequence total period => rfl
    | _ => cases starts
  | single starts other counts => exact counts.symm
  | @axes rank spec bindings isLattice aims =>
    have carried := congrArg List.length aims.axes
    rw [List.length_map] at carried
    rw [List.length_map, carried, isLattice]
    cases rank <;> rfl

end Directive.Achieves

end TimedCommands
