import TimedCommands.Dispatch.Recording
import TimedCommands.Main
import TimedCommands.Proofs.Group.Chain
import TimedCommands.Proofs.Group.Evaluation
import TimedCommands.Proofs.Group.Resolution
import TimedCommands.Proofs.Schedule.FiringOrder
import TimedCommands.Proofs.Schedule.Polling
import TimedCommands.Proofs.Schedule.Firing
import TimedCommands.Proofs.Schedule.Step
import TimedCommands.Proofs.Dispatch.Delivery
import TimedCommands.Proofs.Schedule.Timetable
import TimedCommands.Proofs.Directive.Range
import TimedCommands.Proofs.Validation.Acceptance
import TimedCommands.Proofs.Schedule.Faults
import TimedCommands.Proofs.Schedule.ValidatedRun
import TimedCommands.Proofs.Schedule.Isolation
import TimedCommands.Proofs.Script.Segments
import TimedCommands.Proofs.Script.Reprint
import TimedCommands.Proofs.Schedule.Handling
import TimedCommands.Proofs.Schedule.Events
import TimedCommands.Proofs.Schedule.Leap
import TimedCommands.Proofs.Group.Binding
import TimedCommands.Proofs.Schedule.InPlace
import TimedCommands.Proofs.Script.Acceptance
import TimedCommands.Proofs.Schedule.Repetitions
import TimedCommands.Proofs.Group.Operation
import TimedCommands.Proofs.Group.History
import TimedCommands.Proofs.Group.Template
import TimedCommands.Proofs.Registry.History
import TimedCommands.Proofs.Registry.Table
import TimedCommands.Proofs.Directive.Operations
import TimedCommands.Proofs.Schedule.Reachable
import TimedCommands.Proofs.Validation.Admission
import TimedCommands.Proofs.Schedule.InputOrder
import TimedCommands.Proofs.Validation.Conditions
import TimedCommands.Proofs.Schedule.Enforcement
import TimedCommands.Proofs.Structured.RoundTrip
import TimedCommands.Proofs.Schedule.Splitting
import TimedCommands.Proofs.Schedule.BoundCalls
import TimedCommands.Proofs.Schedule.CallTimes
import TimedCommands.Proofs.Dispatch.Engine
import TimedCommands.Proofs.Dispatch.Influence
import TimedCommands.Proofs.Schedule.ExactTimes
import TimedCommands.Proofs.Dispatch.Noting
import TimedCommands.Proofs.Dispatch.Lifecycle
import TimedCommands.Proofs.Dispatch.Agreement
import TimedCommands.Proofs.Group.Cycle
import TimedCommands.Proofs.Group.EnabledFlags
import TimedCommands.Proofs.Lattice.Grid
import TimedCommands.Proofs.Binding.Progression
import TimedCommands.Proofs.Script.Names
import TimedCommands.Proofs.Lattice.Points
import TimedCommands.Proofs.Script.Relayout
import TimedCommands.Proofs.Script.ErrorPlaces
import TimedCommands.Proofs.Dispatch.LineOutput
import TimedCommands.Proofs.Structured.Rewriting
import TimedCommands.Proofs.Group.Depth
