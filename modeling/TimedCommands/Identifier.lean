/-!
# Identifiers

Groups and placeholders are named by ASCII identifiers: a letter or underscore,
followed by letters, digits and underscores. Names are kept as plain text so that a
program with a bad name can still be read, shown and rejected with a reason.
-/

namespace TimedCommands

/-- The name of a command group, as written. -/
abbrev GroupName := String

/-- The name of an argument slot of a command, as written. -/
abbrev Placeholder := String

/-- Whether a character may begin an identifier. -/
def isIdentifierStart (char : Char) : Bool := char.isAlpha || char = '_'

/-- Whether a character may continue an identifier. -/
def isIdentifierPart (char : Char) : Bool := char.isAlphanum || char = '_'

/-- Whether a character list is an identifier. -/
def isIdentifierChars : List Char → Bool
  | [] => false
  | first :: rest => isIdentifierStart first && rest.all isIdentifierPart

/-- Whether a name is an identifier. -/
def isIdentifier (name : String) : Bool := isIdentifierChars name.toList

end TimedCommands
