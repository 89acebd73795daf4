import Mathlib.Data.List.Flatten
import TimedCommands.Proofs.Dispatch.Delivery
import TimedCommands.Proofs.Schedule.Polling
import TimedCommands.Proofs.Schedule.Step

/-!
# Groups on their own

What happens to a group depends on its own directives alone. `only keeps` leaves, of a
registry, a state, a scheduler or a trace, what belongs to the groups that `keeps` selects.
Leaving the other groups out commutes with creating a scheduler, with a step and with
polling (`only_create`, `only_step`, `only_poll`), whatever fails or is missed among them.

`groups_are_isolated` reads off what this means for a single group, and for the counts of
each step.
-/

namespace TimedCommands

variable {keeps : GroupName → Bool} {arity : ArityLookup} {name : GroupName}

namespace Registry

/-- The groups that are kept. -/
def only (keeps : GroupName → Bool) (registry : Registry) : Registry :=
  ⟨registry.groups.filter fun group => keeps group.name⟩

variable {registry : Registry}

/-- A group that is kept is still found. -/
theorem find?_only (kept : keeps name) (registry : Registry) :
    (registry.only keeps).find? name = registry.find? name := by
  simp only [find?, only, List.find?_filter]
  refine congrArg (List.find? · registry.groups) (funext fun group => ?_)
  by_cases same : group.name = name <;> simp [same, kept]

/-- A group that is kept is got as before, or is missing as before. -/
theorem get_only (kept : keeps name) (registry : Registry) :
    (registry.only keeps).get name = registry.get name := by
  simp only [get, find?_only kept]

/-- A group that is kept is made as before, or is in the way as before. -/
theorem create_only (kept : keeps name) (registry : Registry) :
    (registry.only keeps).create name = (registry.create name).map (only keeps) := by
  simp only [create, contains, find?_only kept]
  by_cases present : (registry.find? name).isSome
  · simp [present]
  · simp [present, only, Group.empty, kept]

/-- Putting a group in its place and leaving groups out may be done in either order. -/
theorem replace_only (registry : Registry) (group : Group) :
    (registry.only keeps).replace group = (registry.replace group).only keeps := by
  simp only [replace, only, List.filter_map]
  congr 2
  refine List.filter_congr fun other _ => ?_
  by_cases same : other.name = group.name <;> simp [same]

/-- Changing a group that is left out changes none that is kept. -/
theorem only_replace (registry : Registry) {group : Group} (dropped : keeps group.name = false) :
    (registry.replace group).only keeps = registry.only keeps := by
  rw [← replace_only]
  simp only [replace, only, mk.injEq]
  refine List.map_congr_left (g := id) (fun other member => ?_) |>.trans (List.map_id _)
  have kept : keeps other.name = true := (List.mem_filter.mp member).2
  have different : other.name ≠ group.name := fun same => by simp [same, dropped] at kept
  simp [different]

end Registry

namespace RunState

/-- What was built of the groups that are kept. -/
def only (keeps : GroupName → Bool) (state : RunState) : RunState where
  registry := state.registry.only keeps
  sequences := state.sequences.filter fun sequence => keeps sequence.group

variable {state changed : RunState} {directive : Directive} {effects : List Effect}

/-- Only the groups that are kept are in the registry. -/
@[simp] theorem registry_only (state : RunState) :
    (state.only keeps).registry = state.registry.only keeps := rfl

/-- In a state, too, a group may be put in its place before or after others are left out. -/
@[simp] theorem replace_only (state : RunState) (group : Group) :
    (state.only keeps).replace group = (state.replace group).only keeps := by
  simp only [replace, only, Registry.replace_only]

/-- A slot of a group that is kept is bound as before. -/
theorem bindSlot_only (kept : keeps name) (state : RunState) (slot : SlotName)
    (binding : Binding) :
    (state.only keeps).bindSlot name slot binding =
      (state.bindSlot name slot binding).map (only keeps) := by
  simp [bindSlot, map_bind, Registry.get_only kept]

/-- A lattice for a group that is kept is bound as before. -/
theorem bindLattice_only (kept : keeps name) (state : RunState) (rank : Rank)
    (spec : LatticeSpec) :
    (state.only keeps).bindLattice name rank spec =
      (state.bindLattice name rank spec).map fun (changed, effects) =>
        (changed.only keeps, effects) := by
  simp [bindLattice, map_bind, Registry.get_only kept]

/-- A directive of a kept group sees nothing of the others. -/
theorem fire_only (kept : keeps directive.group) (state : RunState) :
    (state.only keeps).fire arity directive =
      (state.fire arity directive).map fun (changed, effects) =>
        (changed.only keeps, effects) := by
  obtain ⟨time, name, action⟩ := directive
  cases action <;>
    simp [fire, map_bind, bind_map, Registry.get_only kept, Registry.create_only kept,
      bindSlot_only kept, bindLattice_only kept]
  case createGroup => rfl
  case executeSequence =>
    have keptHere : keeps name = true := kept
    simp [only, ScheduledSequence.begin, keptHere]

/-- A directive of a group that is left out changes nothing of the others. -/
theorem only_of_fire (dropped : keeps directive.group = false)
    (fired : state.fire arity directive = .ok (changed, effects)) :
    changed.only keeps = state.only keeps := by
  cases fired_of_fire fired with
  | @created registry creates made =>
    rw [Registry.create] at made
    split at made <;> cases made
    simp [only, Registry.only, Group.empty, dropped]
  | @edited group other keepsGroup starts found named =>
    have droppedGroup : keeps other.name = false := named ▸ dropped
    simp [only, replace, Registry.only_replace _ droppedGroup]
  | @scheduled group sequence starts found =>
    have droppedSequence : keeps sequence.group = false :=
      (Directive.start_of_sequence? starts).1 ▸ dropped
    simp [only, droppedSequence]

end RunState

/-- What happened to the directives and repetitions of the groups that are kept. -/
def StepTrace.only (keeps : GroupName → Bool) (trace : StepTrace) : StepTrace where
  time := trace.time
  directives := trace.directives.filter fun handled => keeps handled.directive.group
  repetitions := trace.repetitions.filter fun handled => keeps handled.sequence.group

namespace Scheduler

/-- The scheduler of the groups that are kept. -/
def only (keeps : GroupName → Bool) (scheduler : Scheduler) : Scheduler where
  arity := scheduler.arity
  pending := scheduler.pending.filter fun directive => keeps directive.group
  state := scheduler.state.only keeps

variable {scheduler : Scheduler} {now : Time}

/-- A scheduler for the directives of some groups has their part of what a scheduler for all has. -/
theorem only_create (keeps : GroupName → Bool) (arity : ArityLookup)
    (directives : List Directive) :
    (create arity directives).only keeps =
      create arity (directives.filter fun directive => keeps directive.group) := by
  simp only [only, create, firingOrder_filter]
  rfl

/-- A directive for a group that is kept is handled as before. -/
theorem handleDirective_only {directive : Directive} (kept : keeps directive.group)
    (now : Time) (state : RunState) :
    handleDirective arity now (state.only keeps) directive =
      ((handleDirective arity now state directive).1.only keeps,
        (handleDirective arity now state directive).2) := by
  simp only [handleDirective, RunState.fire_only kept]
  split
  · rfl
  · cases state.fire arity directive <;> rfl

/-- A directive for a group that is left out does nothing to those that are kept. -/
theorem only_handleDirective {directive : Directive} (dropped : keeps directive.group = false)
    (now : Time) (state : RunState) :
    (handleDirective arity now state directive).1.only keeps = state.only keeps := by
  rw [handleDirective]
  split
  · rfl
  · cases fired : state.fire arity directive with
    | error fault => rfl
    | ok result => exact RunState.only_of_fire dropped fired

/-- The directives for the groups that are kept are handled as they are among all. -/
theorem handleDirectives_only (now : Time) (state : RunState) (due : List Directive) :
    handleDirectives arity now (state.only keeps)
        (due.filter fun directive => keeps directive.group) =
      ((handleDirectives arity now state due).1.only keeps,
        (handleDirectives arity now state due).2.filter fun handled =>
          keeps handled.directive.group) := by
  induction due generalizing state with
  | nil => rfl
  | cons directive rest ih =>
    by_cases kept : keeps directive.group
    · simp [handleDirectives, kept, handleDirective_only kept, ih]
    · have dropped : keeps directive.group = false := Bool.eq_false_iff.mpr kept
      simp only [List.filter_cons, dropped, Bool.false_eq_true, ↓reduceIte, handleDirectives]
      rw [← only_handleDirective dropped now state, ih]

/-- The repetitions of a group that is kept are handled as before. -/
theorem handleSequence_only {sequence : ScheduledSequence} (kept : keeps sequence.group)
    (now : Time) (registry : Registry) :
    handleSequence (registry.only keeps) now sequence = handleSequence registry now sequence := by
  simp only [handleSequence, handleRepetition, Registry.get_only kept]

/-- The repetitions of kept groups are those that their sequences alone have. -/
theorem handleSequences_only (now : Time) (registry : Registry)
    (sequences : List ScheduledSequence) :
    (sequences.filter fun sequence => keeps sequence.group).flatMap
        (handleSequence (registry.only keeps) now) =
      (sequences.flatMap (handleSequence registry now)).filter fun handled =>
        keeps handled.sequence.group := by
  induction sequences with
  | nil => rfl
  | cons sequence rest ih =>
    rw [List.flatMap_cons, List.filter_append, ← ih]
    by_cases kept : keeps sequence.group
    · have all : (handleSequence registry now sequence).filter
          (fun handled => keeps handled.sequence.group) = handleSequence registry now sequence := by
        simp [handleSequence, kept]
      simp only [List.filter_cons, kept, ↓reduceIte, List.flatMap_cons, handleSequence_only kept,
        all]
    · have none : (handleSequence registry now sequence).filter
          (fun handled => keeps handled.sequence.group) = [] := by
        simp [handleSequence, kept]
      simp only [List.filter_cons, kept, Bool.false_eq_true, ↓reduceIte, none, List.nil_append]

/-- Among the directives that are kept, those that are due are those that were due. -/
theorem takeWhile_only {pending : List Directive} (ordered : InFiringOrder pending) (now : Time) :
    (pending.filter fun directive => keeps directive.group).takeWhile (·.time ≤ now) =
      (pending.takeWhile (·.time ≤ now)).filter fun directive => keeps directive.group := by
  rw [ordered.takeWhile_due, (ordered.filter _).takeWhile_due, List.filter_filter,
    List.filter_filter]
  simp only [Bool.and_comm]

/-- Among the directives that are kept, those that are left are those that were left. -/
theorem dropWhile_only {pending : List Directive} (ordered : InFiringOrder pending) (now : Time) :
    (pending.filter fun directive => keeps directive.group).dropWhile (·.time ≤ now) =
      (pending.dropWhile (·.time ≤ now)).filter fun directive => keeps directive.group := by
  rw [ordered.dropWhile_due, (ordered.filter _).dropWhile_due, List.filter_filter,
    List.filter_filter]
  simp only [Bool.and_comm]

/-- A step of the kept groups alone is what the step of all groups is for them. -/
theorem only_step (keeps : GroupName → Bool) (ordered : InFiringOrder scheduler.pending)
    (now : Time) :
    (scheduler.only keeps).step now =
      ((scheduler.step now).1.only keeps, (scheduler.step now).2.only keeps) := by
  simp only [step, only, takeWhile_only ordered, dropWhile_only ordered, handleDirectives_only]
  simp only [StepTrace.only, RunState.only, handleSequences_only, List.filter_map]
  rfl

/-- Polling the kept groups alone is what polling all groups is for them. -/
theorem only_poll (keeps : GroupName → Bool) (ordered : InFiringOrder scheduler.pending)
    (times : List Time) :
    (scheduler.only keeps).poll times =
      ⟨(scheduler.poll times).scheduler.only keeps,
        (scheduler.poll times).steps.map (StepTrace.only keeps)⟩ := by
  induction times generalizing scheduler with
  | nil => rfl
  | cons now later ih =>
    rw [poll_cons, only_step keeps ordered, ih (inFiringOrder_step ordered now), poll_cons]
    rfl

end Scheduler

/-! What a trace says of the kept groups, beside what it says of all. -/

/-- The counts of a step, its failures counted as well. -/
structure Tally where
  fired : Nat
  missed : Nat
  repetitions : Nat
  dispatched : Nat
  failures : Nat
  deriving Repr, DecidableEq

/-- The counts of two parts together. -/
def Tally.add (left right : Tally) : Tally where
  fired := left.fired + right.fired
  missed := left.missed + right.missed
  repetitions := left.repetitions + right.repetitions
  dispatched := left.dispatched + right.dispatched
  failures := left.failures + right.failures

/-- The counts of a report. -/
def Report.tally (report : Report) : Tally :=
  ⟨report.fired, report.missed, report.repetitions, report.dispatched, report.failures.length⟩

namespace StepTrace

/-- The counts that a step reports. -/
def tally (trace : StepTrace) : Tally := (trace.report 0).tally

/-- The calls of some groups are among the calls of all, in their order. -/
theorem calls_only (keeps : GroupName → Bool) (trace : StepTrace) :
    (trace.only keeps).calls.Sublist trace.calls :=
  List.filter_sublist.flatMap _

/-- The counts of a step are those of the kept groups and those of the others together. -/
theorem tally_only (keeps : GroupName → Bool) (trace : StepTrace) :
    trace.tally =
      (trace.only keeps).tally.add (trace.only fun name => !keeps name).tally := by
  have directives := List.filter_append_perm
    (fun handled : DirectiveTrace => keeps handled.directive.group) trace.directives
  have repetitions := List.filter_append_perm
    (fun handled : RepetitionTrace => keeps handled.sequence.group) trace.repetitions
  simp only [tally, Report.tally, report, Tally.add, Tally.mk.injEq, List.length_append]
  refine ⟨?_, ?_, ?_, ?_, ?_⟩
  · have counted := (directives.filter fun handled => !handled.isMissed).length_eq
    rw [List.filter_append, List.length_append] at counted
    exact counted.symm
  · have counted := (directives.filter DirectiveTrace.isMissed).length_eq
    rw [List.filter_append, List.length_append] at counted
    exact counted.symm
  · have counted := (repetitions.filter fun handled => !handled.isMissed).length_eq
    rw [List.filter_append, List.length_append] at counted
    exact counted.symm
  · have counted := (repetitions.flatMap_right fun handled =>
      handled.commands.map (RepetitionTrace.callOf trace.time)).length_eq
    rw [List.flatMap_append, List.length_append] at counted
    exact counted.symm
  · have ofDirectives := (directives.filterMap DirectiveTrace.failure?).length_eq
    have ofRepetitions := (repetitions.filterMap RepetitionTrace.failure?).length_eq
    rw [List.filterMap_append, List.length_append] at ofDirectives ofRepetitions
    simp only [only]
    omega

end StepTrace

namespace Scheduler

/-- The calls that the steps of a run hand to a dispatcher. -/
def Run.handed {σ : Type} (run : Run) (dispatcher : Dispatcher σ) (initial : σ) : List Call :=
  (dispatcher.watched.deliver (initial, []) (run.steps.flatMap StepTrace.journal)).state.2

/-- Whatever it answers, a dispatcher is handed the calls of a run. -/
theorem Run.handed_eq_calls {σ : Type} (run : Run) (dispatcher : Dispatcher σ) (initial : σ) :
    run.handed dispatcher initial = run.calls := by
  rw [handed, calls_watched, journalCalls_steps]

/-- Over all steps, the calls of some groups are among the calls of all, in their order. -/
theorem calls_only_sublist (keeps : GroupName → Bool) (steps : List StepTrace) :
    ((steps.map (StepTrace.only keeps)).flatMap StepTrace.calls).Sublist
      (steps.flatMap StepTrace.calls) := by
  induction steps with
  | nil => exact .slnil
  | cons trace rest ih => exact (trace.calls_only keeps).append ih

/-- In every step, the tallies of the groups that are kept and of the others add up to that of
all. -/
theorem tally_only_steps (keeps : GroupName → Bool) (steps : List StepTrace) :
    steps.map StepTrace.tally =
      List.zipWith Tally.add ((steps.map (StepTrace.only keeps)).map StepTrace.tally)
        ((steps.map (StepTrace.only fun name => !keeps name)).map StepTrace.tally) := by
  induction steps with
  | nil => rfl
  | cons trace rest ih =>
    simp only [List.map_cons, List.zipWith_cons_cons]
    rw [← ih, ← trace.tally_only keeps]

end Scheduler

/-- The directives of other groups, whatever becomes of them, have no influence on a group.
Polled at the same times beside them and on its own, it is the same group after every step,
with the same sequences, and the commands it hands over stand among all commands in the same
order. What a step counts is what it counts for the group and for the others together. -/
theorem groups_are_isolated {σ τ : Type} (arity : ArityLookup) (directives : List Directive)
    (name : GroupName) (times : List Time) (dispatcher : Dispatcher σ) (initial : σ)
    (dispatcherAlone : Dispatcher τ) (initialAlone : τ) :
    let all := Scheduler.create arity directives
    let alone := Scheduler.create arity (directives.filter (·.group = name))
    let others := Scheduler.create arity (directives.filter (·.group ≠ name))
    (∀ count,
      let full := (all.poll (times.take count)).scheduler.state
      let own := (alone.poll (times.take count)).scheduler.state
      full.registry.find? name = own.registry.find? name ∧
        full.sequences.filter (·.group = name) = own.sequences) ∧
      ((alone.poll times).handed dispatcherAlone initialAlone).Sublist
        ((all.poll times).handed dispatcher initial) ∧
      (all.poll times).steps.map StepTrace.tally =
        List.zipWith Tally.add ((alone.poll times).steps.map StepTrace.tally)
          ((others.poll times).steps.map StepTrace.tally) := by
  intro all alone others
  have ordered : InFiringOrder all.pending := inFiringOrder_firingOrder directives
  have isAlone : alone = all.only (· = name) := by
    rw [Scheduler.only_create]
  have isOthers : others = all.only fun other => !decide (other = name) := by
    rw [Scheduler.only_create]
    simp [others]
  refine ⟨fun count => ?_, ?_, ?_⟩
  · rw [isAlone, Scheduler.only_poll _ ordered]
    exact ⟨(Registry.find?_only (by simp) _).symm, rfl⟩
  · rw [Scheduler.Run.handed_eq_calls, Scheduler.Run.handed_eq_calls, isAlone,
      Scheduler.only_poll _ ordered]
    exact Scheduler.calls_only_sublist _ _
  · rw [isAlone, isOthers, Scheduler.only_poll _ ordered, Scheduler.only_poll _ ordered]
    exact Scheduler.tally_only_steps _ _

end TimedCommands
