import TimedCommands.Log
import TimedCommands.Value

/-!
# Dispatching commands

The engine never carries out a command itself. It writes a journal: what it has to
say, and the commands it hands over, in order. A dispatcher takes the commands one by
one and answers whether each ran; its answers decide only what is logged and counted,
never which commands follow.
-/

namespace TimedCommands

/-- A command handed over at a time, all of its arguments resolved. -/
structure Call where
  time : Time
  typeName : String
  arguments : List Value
  deriving Repr, DecidableEq

/-- A dispatcher's answer to a call: whether the command ran, what was logged meanwhile,
and the dispatcher's next state. -/
structure Reply (σ : Type) where
  ran : Bool
  notes : List LogRecord
  next : σ

/-- A dispatcher with states of type `σ`. -/
structure Dispatcher (σ : Type) where
  execute : Call → σ → Reply σ

/-- An entry of a journal: a record, or a call with the record that follows it if the
command does not run. -/
inductive JournalEntry where
  | note (record : LogRecord)
  | call (call : Call) (declined : LogRecord)
  deriving Repr, DecidableEq

/-- What came of delivering a journal: the dispatcher's state, the number of commands that
did not run, and the log. -/
structure Delivery (σ : Type) where
  state : σ
  declined : Nat
  log : Array LogRecord

namespace Dispatcher

variable {σ : Type}

/-- Delivers one entry of a journal. -/
def deliverEntry (dispatcher : Dispatcher σ) (delivery : Delivery σ) : JournalEntry → Delivery σ
  | .note record => { delivery with log := delivery.log.push record }
  | .call call declined =>
    let reply := dispatcher.execute call delivery.state
    let log := delivery.log.appendList reply.notes
    if reply.ran then ⟨reply.next, delivery.declined, log⟩
    else ⟨reply.next, delivery.declined + 1, log.push declined⟩

/-- Delivers a journal in order. -/
def deliver (dispatcher : Dispatcher σ) (state : σ) (journal : List JournalEntry) : Delivery σ :=
  journal.foldl dispatcher.deliverEntry ⟨state, 0, #[]⟩

end Dispatcher

end TimedCommands
