import TimedCommands.Script.Lexeme
import TimedCommands.Script.Reading

/-!
# Reading a script

Directives are read one after the other. One that is malformed yields an error, and reading goes
on at the next keyword, wherever it was given up. So does one behind which something else than a
keyword stands.
-/

namespace TimedCommands.Script

/-- Reads one directive, or the error there is instead, and goes on to the place where the next one
begins. -/
def readNext (arity : ArityLookup) (stream : TokenStream) :
    Except ReadError Directive × TokenStream :=
  match (readDirective arity).run stream with
  | (.error error, after) => (.error error, after.synchronize)
  | (.ok directive, after) =>
    match after.peek? with
    | none => (.ok directive, after)
    | some found =>
      if found.isKeyword then (.ok directive, after)
      else (.error ⟨.trailing found directive, after.place⟩, after.synchronize)

/-- Reading a directive or an error always takes a token. -/
theorem length_readNext_lt (arity : ArityLookup) {stream : TokenStream}
    (more : stream.atEnd = false) :
    (readNext arity stream).2.left.length < stream.left.length := by
  obtain ⟨left, stop⟩ := stream
  obtain ⟨⟨token, span⟩, rest, rfl⟩ := List.exists_cons_of_ne_nil (List.isEmpty_eq_false_iff.mp more)
  by_cases starts : token.isKeyword = true
  case neg =>
    have run : (readDirective arity).run ⟨⟨token, span⟩ :: rest, stop⟩ =
        (.error ⟨.stray token, span⟩, ⟨⟨token, span⟩ :: rest, stop⟩) := by
      cases token with
      | keyword keyword => exact absurd rfl starts
      | _ => rfl
    have passes := (List.dropWhile_suffix (l := rest) fun located => !located.token.isKeyword).length_le
    simp only [readNext, run, TokenStream.synchronize, List.dropWhile_cons, starts]
    exact Nat.lt_succ_of_le passes
  case pos =>
    -- The keyword is taken, and no reader goes back behind it.
    obtain ⟨keyword, rfl⟩ : ∃ keyword, token = .keyword keyword := by
      cases token <;> simp_all [Token.isKeyword]
    have run : (readDirective arity).run ⟨⟨.keyword keyword, span⟩ :: rest, stop⟩ =
        (readFields arity keyword).run ⟨rest, stop⟩ := rfl
    have passes := (readFields arity keyword).forward ⟨rest, stop⟩
    rw [readNext, run]
    generalize (readFields arity keyword).run ⟨rest, stop⟩ = result at passes
    have onward := Nat.lt_succ_of_le passes.left.length_le
    have further := Nat.lt_succ_of_le (result.2.follows_synchronize.trans passes).left.length_le
    split
    · exact further
    split
    · exact onward
    split
    · exact onward
    · exact further

/-- Reads all directives of a stream, each with the error there is in its place. -/
def readAll (arity : ArityLookup) (stream : TokenStream) : List (Except ReadError Directive) :=
  if _more : stream.atEnd = false then
    let next := readNext arity stream
    next.1 :: readAll arity next.2
  else []
termination_by stream.left.length
decreasing_by exact length_readNext_lt _ _more

/-- The directives of a script and the errors of the parts that are none, each in order. -/
structure Program where
  directives : List Directive
  errors : List ReadError
  deriving Repr, DecidableEq

/-- Separates directives from errors. -/
def Program.ofOutcomes (outcomes : List (Except ReadError Directive)) : Program where
  directives := outcomes.filterMap fun
    | .ok directive => some directive
    | .error _ => none
  errors := outcomes.filterMap fun
    | .ok _ => none
    | .error error => some error

/-- Reads tokens; the source's length in bytes is the place of its end. -/
def readTokens (arity : ArityLookup) (sourceLength : Nat) (tokens : List Located) : Program :=
  Program.ofOutcomes (readAll arity (.ofTokens tokens sourceLength))

/-- Reads a script. -/
def read (arity : ArityLookup) (source : String) : Except LexError Program :=
  match lex source with
  | .error error => .error error
  | .ok tokens => .ok (readTokens arity source.utf8ByteSize tokens)

end TimedCommands.Script
