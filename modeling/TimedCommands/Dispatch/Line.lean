import TimedCommands.Binding
import TimedCommands.Dispatch.Call
import TimedCommands.Json.Tree

/-!
# Calls as lines

A call is written as one line: an object with its time, its command type and its
arguments. Integers, reals and texts are told apart by their form, except that a real
that is no finite number is written as null.

Reading accepts more than is written: the members may stand in any order and among
others that are unknown, or the three values may be listed in an array.
-/

namespace TimedCommands

/-- Reals in lines: positional from `0.00001` up to, but without, `1e+16`. -/
def Json.realFormat : RealFormat where
  tie := .even
  leastPositional := -5
  firstScientific := 16
  plusSign := true
  infinity := "null"
  negativeInfinity := "null"
  notANumber := "null"

/-- The written form of a value in a line. -/
def Value.json : Value → List Char
  | integer number => (toString number.toInt).toList
  | real number => (Json.realFormat.write number).toList
  | text content => Json.quote content

/-- The value that a part of a line stands for. An integer beyond the signed 64-bit range
is read as a real. -/
def Value.ofJson? : Json.Tree → Option Value
  | .number literal => do
    match ← literal.number? with
    | .integer number =>
      match Progression.fitInteger? number with
      | some fitting => return .integer fitting
      | none => return .real (Decimal.nearestReal number)
    | .real number => return .real number
  | .text pieces => do
    let content ← Json.textOf? pieces
    return .text content
  | _ => none

namespace Call

/-- The characters of a call's line, without the line break. -/
def lineChars (call : Call) : List Char :=
  "\x7b\"time\":".toList ++ (toString call.time.toNat).toList
    ++ ",\"command_type\":".toList ++ Json.quote call.typeName
    ++ ",\"arguments\":[".toList ++ [','].intercalate (call.arguments.map Value.json) ++ "]\x7d".toList

/-- The line of a call, without the line break. -/
def line (call : Call) : String := String.ofList call.lineChars

/-- The time that a part of a line stands for. -/
def readTime? : Json.Tree → Option Time
  | .number literal => do
    match ← literal.number? with
    | .integer number =>
      if 0 ≤ number then return UInt64.ofNat number.toNat else none
    | .real _ => none
  | _ => none

/-- The text that a part of a line stands for. -/
def readText? : Json.Tree → Option String
  | .text pieces => Json.textOf? pieces
  | _ => none

/-- The arguments that a part of a line stands for. -/
def readArguments? : Json.Tree → Option (List Value)
  | .array items => items.mapM Value.ofJson?
  | _ => none

/-- The call of three parts. -/
def ofParts? (time typeName arguments : Json.Tree) : Option Call := do
  return ⟨← readTime? time, ← readText? typeName, ← readArguments? arguments⟩

/-- The member of a name, if there is exactly one. -/
def member? (members : List (String × Json.Tree)) (name : String) : Option Json.Tree :=
  match members.filter fun (other, _) => other = name with
  | [(_, tree)] => some tree
  | _ => none

/-- The call that a tree stands for. -/
def ofJson? : Json.Tree → Option Call
  | .object members => do
    let named ← members.mapM fun (name, tree) => do return (← Json.textOf? name, tree)
    ofParts? (← member? named "time") (← member? named "command_type") (← member? named "arguments")
  | .array [time, typeName, arguments] => ofParts? time typeName arguments
  | _ => none

/-- Reads a line. -/
def ofLine? (line : String) : Option Call := (Json.Tree.ofChars? line.toList).bind ofJson?

end Call

end TimedCommands
