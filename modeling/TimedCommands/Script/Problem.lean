import TimedCommands.Directive.Line
import TimedCommands.Script.Token

/-!
# Why a directive cannot be read

A problem names what was wanted and what was found instead, and an error adds the place it is
reported at. Problems fall into few kinds, which tell a caller whether more input could have
helped.
-/

namespace TimedCommands.Script

/-- Why a directive could not be read. -/
inductive Problem where
  /-- A field was wanted where another token, or the end of input, was found. -/
  | expected (what : String) (found : Option Token)
  /-- Something else than a keyword where a directive should begin. -/
  | stray (found : Option Token)
  /-- Tokens behind a complete directive. -/
  | trailing (found : Token) (directive : Directive)
  | badTime (literal : String)
  | integerRange (literal : String)
  | badNumber (literal : String)
  | unknownPacking (name : String)
  | unknownCommandType (name : String)
  deriving Repr, DecidableEq

/-- What a problem is about. -/
inductive ProblemKind where
  | unexpectedToken
  | unexpectedEof
  | invalidSyntax
  | unknownCommandType
  deriving Repr, DecidableEq

/-- The name of a kind. -/
def ProblemKind.name : ProblemKind → String
  | unexpectedToken => "UnexpectedToken"
  | unexpectedEof => "UnexpectedEof"
  | invalidSyntax => "InvalidSyntax"
  | unknownCommandType => "UnknownCommandType"

/-- How a token, or its absence, is named in an error. -/
def foundText : Option Token → String
  | some token => token.shown
  | none => "end of input"

/-- Whether a token was found, or the end of input. -/
def foundKind : Option Token → ProblemKind
  | some _ => .unexpectedToken
  | none => .unexpectedEof

namespace Problem

/-- The kind of a problem. -/
def kind : Problem → ProblemKind
  | expected _ found => foundKind found
  | stray found => foundKind found
  | trailing _ _ => .unexpectedToken
  | badTime _ => .invalidSyntax
  | integerRange _ => .invalidSyntax
  | badNumber _ => .invalidSyntax
  | unknownPacking _ => .invalidSyntax
  | unknownCommandType _ => .unknownCommandType

/-- The wording of a problem. -/
def message : Problem → String
  | expected what found => s!"expected {what}, found {foundText found}"
  | stray found => s!"unexpected {foundText found} at start of directive"
  | trailing found directive => s!"unexpected {found.shown} after `{directive.line}`"
  | badTime literal => s!"simulation time must be a non-negative integer, got {literal}"
  | integerRange literal => s!"integer {literal} is out of range"
  | badNumber literal => s!"invalid number {literal}"
  | unknownPacking name =>
    s!"unknown lattice packing '{name}', expected rectangular or triangular"
  | unknownCommandType name =>
    s!"command type '{name}' cannot be used in a command group"

end Problem

/-- A problem and the place it is reported at. -/
structure ReadError where
  problem : Problem
  span : Span
  deriving Repr, DecidableEq

/-- The wording of an error. -/
def ReadError.message (error : ReadError) : String := error.problem.message

/-- The wording of an error with its byte range. -/
def ReadError.shown (error : ReadError) : String := s!"{error.message} at {error.span.text}"

end TimedCommands.Script
