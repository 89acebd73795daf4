import TimedCommands.Directive.Basic
import TimedCommands.Text.Position

/-!
# Tokens of the text control input

A script consists of keywords, number literals, text literals and names. A token
keeps its literal as written; what the literal means, and whether it is in range, is
decided where a field asks for it.
-/

namespace TimedCommands.Script

/-- A token of a script. A text literal is held without its quotes, its escapes unread. -/
inductive Token where
  | keyword (keyword : Keyword)
  | integer (literal : String)
  | real (literal : String)
  | text (raw : String)
  | name (spelling : String)
  deriving Repr, DecidableEq

namespace Token

/-- Whether a token starts a directive. -/
def isKeyword : Token → Bool
  | keyword _ => true
  | _ => false

/-- How a token is named in an error. -/
def shown : Token → String
  | keyword word => s!"`{word.text}`"
  | integer literal => s!"integer `{literal}`"
  | real literal => s!"number `{literal}`"
  | text raw => s!"string \"{raw}\""
  | name spelling => s!"identifier `{spelling}`"

end Token

/-- A token and where it stands in the source. -/
structure Located where
  token : Token
  span : Span
  deriving Repr, DecidableEq

/-- A place at which no token, blank or comment begins. -/
structure LexError where
  span : Span
  slice : String
  deriving Repr, DecidableEq

/-- The wording of a lexical error. -/
def LexError.message (error : LexError) : String :=
  s!"unexpected character(s) '{error.slice}' at {error.span.text}"

end TimedCommands.Script
