import TimedCommands.Number.RealText
import TimedCommands.Text.Quoted

/-!
# Argument values

Every argument of a command is an integer, a real or a text. The three kinds never
compare equal, whatever their contents, and each is shown in a form that its kind
can be read off: integers as digits, reals with a point or exponent, texts quoted.
-/

namespace TimedCommands

/-- Simulation time, counted in steps. -/
abbrev Time := UInt64

/-- The kinds of argument values. -/
inductive ValueKind where
  | integer
  | real
  | text
  deriving Repr, DecidableEq

/-- The name of a kind. -/
def ValueKind.name : ValueKind → String
  | integer => "integer"
  | real => "real"
  | text => "text"

/-- A single argument of a command. -/
inductive Value where
  | integer (number : Int64)
  | real (number : Float)
  | text (content : String)
  deriving Repr, DecidableEq

namespace Value

/-- The kind of a value. -/
def kind : Value → ValueKind
  | integer _ => .integer
  | real _ => .real
  | text _ => .text

/-- The integer, if the value is one. -/
def asInteger? : Value → Option Int64
  | integer number => some number
  | _ => none

/-- The value as a real: integers widen, rounding to nearest, and texts have none. -/
def asReal? : Value → Option Float
  | integer number => some number.toFloat
  | real number => some number
  | text _ => none

/-- The text, if the value is one. -/
def asText? : Value → Option String
  | text content => some content
  | _ => none

/-- Whether the value is an integer or a real. -/
def isNumeric : Value → Bool
  | text _ => false
  | _ => true

/-- The shown form of a value. -/
def shown : Value → String
  | integer number => toString number.toInt
  | real number => RealFormat.plain.write number
  | text content => Text.quoted content

/-- Equality as numbers compare: a real that is no number differs from itself, and the two
zeros agree. -/
def agrees : Value → Value → Bool
  | integer left, integer right => left = right
  | real left, real right => left == right
  | text left, text right => left = right
  | _, _ => false

end Value

end TimedCommands
