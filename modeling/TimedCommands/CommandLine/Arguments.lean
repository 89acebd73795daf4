/-!
# Command line arguments

Arguments are operands and options. An option is written with two hyphens and has a
value, which stands behind an equals sign or as the next argument; two hyphens alone
make operands of all that follow. Arguments are considered from left to right, and the
first that asks for help, or is out of place, decides.
-/

namespace TimedCommands.CommandLine

/-- An option that may be given, and which values it accepts. -/
structure OptionRule where
  name : String
  accepts : String → Bool

/-- Arguments told apart, each kind in the order in which it was given. -/
structure Arguments where
  operands : List String
  options : List (String × String)
  deriving Repr, DecidableEq

/-- Why arguments do not lead to any work. -/
inductive Refusal where
  | helpRequested
  | misuse
  deriving Repr, DecidableEq

/-- The exit code of a refusal. -/
def Refusal.exitCode : Refusal → UInt32
  | helpRequested => 0
  | misuse => 2

/-- Whether a value is not empty. -/
def isPath (value : String) : Bool := value ≠ ""

/-- The 64-bit number that a value denotes, with an optional plus sign. -/
def number? (value : String) : Option UInt64 :=
  let digits := match value.toList with
    | '+' :: rest => rest
    | chars => chars
  if digits ≠ [] ∧ digits.all Char.isDigit then
    let number := Nat.ofDigitChars 10 digits 0
    if number < UInt64.size then some (UInt64.ofNat number) else none
  else none

/-- What an argument is, as far as can be told from its own characters. -/
inductive Shape where
  | separator
  /-- An option, with its value if that stands behind an equals sign. -/
  | option (name : String) (value : Option String)
  /-- A hyphen and at least one letter. -/
  | letters (first : Char)
  | operand
  deriving Repr, DecidableEq

/-- The shape of an option, given the characters behind its hyphens. -/
def Shape.ofOption (chars : List Char) : Shape :=
  let name := String.ofList (chars.takeWhile (· ≠ '='))
  match chars.dropWhile (· ≠ '=') with
  | _ :: value => .option name (some (String.ofList value))
  | [] => .option name none

/-- The shape of an argument. A hyphen alone is an operand. -/
def Shape.ofArgument (argument : String) : Shape :=
  match argument.toList with
  | ['-', '-'] => .separator
  | '-' :: '-' :: chars => .ofOption chars
  | '-' :: letter :: _ => .letters letter
  | _ => .operand

namespace Arguments

/-- No arguments. -/
def empty : Arguments := ⟨[], []⟩

/-- Adds the only operand that there may be; it is a path. -/
def addOperand (given : Arguments) (value : String) : Except Refusal Arguments :=
  if given.operands = [] ∧ isPath value then .ok { given with operands := [value] }
  else .error .misuse

/-- Adds an option that was not given before. -/
def addOption (rules : List OptionRule) (given : Arguments) (name value : String) :
    Except Refusal Arguments :=
  match rules.find? fun rule => rule.name = name with
  | some rule =>
    if rule.accepts value ∧ ∀ option ∈ given.options, option.1 ≠ name then
      .ok { given with options := given.options ++ [(name, value)] }
    else .error .misuse
  | none => .error .misuse

/-- Reads arguments behind those that were given already. -/
def readFrom (rules : List OptionRule) (given : Arguments) : List String → Except Refusal Arguments
  | [] => .ok given
  | argument :: rest =>
    match Shape.ofArgument argument with
    | .separator => rest.foldlM addOperand given
    | .letters first => .error (if first = 'h' then .helpRequested else .misuse)
    | .operand => do
      let next ← given.addOperand argument
      readFrom rules next rest
    | .option name (some value) => do
      let next ← given.addOption rules name value
      readFrom rules next rest
    | .option name none =>
      if name = "help" then .error .helpRequested
      else match rest with
        | value :: rest =>
          if Shape.ofArgument value = .operand then do
            let next ← given.addOption rules name value
            readFrom rules next rest
          else .error .misuse
        | [] => .error .misuse

/-- Reads arguments. -/
def read (rules : List OptionRule) (arguments : List String) : Except Refusal Arguments :=
  readFrom rules empty arguments

/-- The operand, without which there is nothing to do. -/
def operand (given : Arguments) : Except Refusal String :=
  match given.operands with
  | [value] => .ok value
  | _ => .error .misuse

/-- The value of an option, if it was given. -/
def option? (given : Arguments) (name : String) : Option String := given.options.lookup name

end Arguments

end TimedCommands.CommandLine
