import TimedCommands.Number.RealText
import TimedCommands.Text.Quoted
import TimedCommands.Yaml.Tree

/-!
# Problems of structured entries

Why an entry of a structured program is no directive. Of all problems that an entry
may have, only the first is ever reported, so a problem is a single cause and not a
collection.
-/

namespace TimedCommands.Structured

open TimedCommands.Yaml (Tree)

/-- Why a tree could not be read as what was wanted. -/
inductive Problem where
  | missingField (name : String)
  | duplicateField (name : String)
  | unknownVariant (name : String) (expected : List String)
  | wrongType (found : Tree) (wanted : String)
  | wrongValue (found : Tree) (wanted : String)
  | wrongLength (length : Nat) (wanted : String)
  | noValue
  /-- A part of an entry, or something in it, has a tag. -/
  | taggedPart
  deriving Repr

/-- How a tree is named in a problem. -/
def foundText : Tree → String
  | .null => "unit value"
  | .boolean flag => s!"boolean `{flag}`"
  | .integer number => s!"integer `{number}`"
  | .real number => s!"floating point `{RealFormat.unscaled.write number}`"
  | .text content => s!"string {Text.quoted content}"
  | .sequence _ => "sequence"
  | .mapping _ => "map"
  | .tagged _ _ => "enum"

/-- A name between backquotes. -/
def backquoted (name : String) : String := s!"`{name}`"

/-- How a choice of names is worded. -/
def choiceText : List String → String
  | [only] => backquoted only
  | [first, second] => s!"{backquoted first} or {backquoted second}"
  | names => "one of " ++ String.intercalate ", " (names.map backquoted)

/-- The wording of a problem. -/
def Problem.message : Problem → String
  | missingField name => s!"missing field {backquoted name}"
  | duplicateField name => s!"duplicate field {backquoted name}"
  | unknownVariant name expected =>
    s!"unknown variant {backquoted name}, expected {choiceText expected}"
  | wrongType found wanted => s!"invalid type: {foundText found}, expected {wanted}"
  | wrongValue found wanted => s!"invalid value: {foundText found}, expected {wanted}"
  | wrongLength length wanted => s!"invalid length {length}, expected {wanted}"
  | noValue => "data did not match any variant of untagged enum ArgumentValue"
  | taggedPart => "untagged and internally tagged enums do not support enum input"

end TimedCommands.Structured
