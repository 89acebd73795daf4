import TimedCommands.Dispatch.Call

/-!
# Recording calls

A dispatcher that keeps every call, whether or not it lets the command run. The times
of a recording are listed as they follow each other, one entry for each stretch of
calls at the same time; they are distinct as long as the calls came in order of time.
-/

namespace TimedCommands

/-- The calls that were made, in order. -/
structure Recording where
  calls : Array Call
  deriving Repr, DecidableEq

namespace Recording

/-- Nothing was called. -/
def empty : Recording := ⟨#[]⟩

/-- Keeps one more call. -/
def record (recording : Recording) (call : Call) : Recording := ⟨recording.calls.push call⟩

/-- The times of the calls, neighbours that are equal listed once. -/
def times (recording : Recording) : List Time :=
  (recording.calls.toList.map (·.time)).eraseReps

/-- The calls at a time. -/
def callsAt (recording : Recording) (time : Time) : List Call :=
  recording.calls.toList.filter fun call => call.time = time

/-- Hands over the calls and leaves none. -/
def take (recording : Recording) : List Call × Recording := (recording.calls.toList, empty)

/-- Records every call, and lets those commands run whose type is `willing`. -/
def dispatcher (willing : String → Bool) : Dispatcher Recording where
  execute call recording := ⟨willing call.typeName, [], recording.record call⟩

end Recording

end TimedCommands
