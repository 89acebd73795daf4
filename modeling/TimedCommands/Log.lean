/-!
# Log records

A log record has a level, a message and named fields in a fixed order. Records are
plain values: whatever is logged is computed from what happened, and only the outer
layer writes it anywhere.
-/

namespace TimedCommands

/-- The levels of log records. -/
inductive LogLevel where
  | debug
  | info
  | warning
  | error
  deriving Repr, DecidableEq

/-- The written name of a level. -/
def LogLevel.name : LogLevel → String
  | debug => "DEBUG"
  | info => "INFO"
  | warning => "WARN"
  | error => "ERROR"

/-- One line of a log. -/
structure LogRecord where
  level : LogLevel
  message : String
  fields : List (String × String)
  deriving Repr, DecidableEq

namespace LogRecord

/-- A record without fields. -/
def plain (level : LogLevel) (message : String) : LogRecord := ⟨level, message, []⟩

/-- The record as a line of text: level, message, then each field. -/
def line (record : LogRecord) : String :=
  String.intercalate " "
    (record.level.name :: record.message :: record.fields.map fun (name, value) => s!"{name}={value}")

end LogRecord

end TimedCommands
