import TimedCommands.Dispatch.Line

/-!
# Writing calls as lines

The dispatcher of a run without a simulation behind it: every command is logged and,
if an output is attached, written to it as a line. A command runs if its line could be
written, or if there is nowhere to write it.
-/

namespace TimedCommands

/-- A limit to what can be written. -/
structure LineLimit where
  /-- How many lines there is room for. -/
  room : Nat
  /-- The error that any further line is answered with. -/
  error : String
  deriving Repr, DecidableEq

/-- Where lines are written. -/
structure LineSink where
  /-- The lines written so far, without their line breaks. -/
  lines : Array String
  /-- The limit to them, if there is one. -/
  limit : Option LineLimit
  /-- Whether what was written reaches its place in the end. -/
  flushes : Bool
  deriving Repr, DecidableEq

namespace LineSink

/-- An empty sink that takes every line. -/
def unlimited : LineSink := ⟨#[], none, true⟩

/-- Writes a line. A sink without room for it answers with the error of its limit. -/
def write (sink : LineSink) (line : String) : Except String LineSink :=
  let written := { sink with lines := sink.lines.push line }
  match sink.limit with
  | some limit => if limit.room ≤ sink.lines.size then .error limit.error else .ok written
  | none => .ok written

/-- The text of all lines, each with its line break. -/
def text (sink : LineSink) : String := sink.lines.foldl (fun text line => text ++ line ++ "\n") ""

end LineSink

/-- What a dispatcher with lines as output has done. -/
structure LineOutput where
  sink : Option LineSink
  /-- How many commands ran. -/
  dispatched : Nat
  deriving Repr, DecidableEq

namespace LineOutput

/-- A dispatcher that has done nothing and writes to the given sink, if any. -/
def begin (sink : Option LineSink) : LineOutput := ⟨sink, 0⟩

/-- Whether everything that was written reaches its place. -/
def flushes (output : LineOutput) : Bool :=
  match output.sink with
  | some sink => sink.flushes
  | none => true

/-- The text written so far. -/
def text? (output : LineOutput) : Option String := output.sink.map LineSink.text

/-- The log record of a call. -/
def callRecord (call : Call) : LogRecord :=
  ⟨.info, "dispatch",
    [("time", toString call.time.toNat), ("command_type", call.typeName),
     ("arguments", String.intercalate " " (call.arguments.map Value.shown))]⟩

/-- The log record of a line that could not be written, with the error of the sink. -/
def refusalRecord (error : String) : LogRecord :=
  ⟨.warning, "failed to write dispatch record", [("error", error)]⟩

/-- Logs a call and writes it. -/
def execute (call : Call) (output : LineOutput) : Reply LineOutput :=
  let announcement := callRecord call
  match output.sink with
  | none => ⟨true, [announcement], { output with dispatched := output.dispatched + 1 }⟩
  | some sink =>
    match sink.write call.line with
    | .ok written => ⟨true, [announcement], ⟨some written, output.dispatched + 1⟩⟩
    | .error error => ⟨false, [announcement, refusalRecord error], output⟩

/-- The dispatcher that logs and writes. -/
def dispatcher : Dispatcher LineOutput := ⟨execute⟩

end LineOutput

end TimedCommands
