import TimedCommands.Script.Problem

/-!
# Streams of tokens

A script is read in one pass over its tokens. A stream is a position of that pass. A reader moves
it forward and answers with a value or an error, and whatever it answers, reading goes on where
the reader has left the stream; a token that does not fit is not taken.

A reader carries the fact that it only moves forward, so it holds of every reader that is put
together from others.
-/

namespace TimedCommands.Script

/-- What is found where no token is left, and its place. -/
structure Stop where
  token : Option Token
  span : Span
  deriving Repr, DecidableEq

/-- A position among tokens: those that are left from there on, and what stands behind the last of
them. -/
structure TokenStream where
  left : List Located
  stop : Stop
  deriving Repr, DecidableEq

namespace TokenStream

/-- The beginning of the tokens of a source, whose length in bytes is the place of its end. -/
def ofTokens (tokens : List Located) (sourceLength : Nat) : TokenStream where
  left := tokens
  stop := ⟨none, ⟨sourceLength, sourceLength⟩⟩

variable (stream : TokenStream)

/-- Whether no token is left. -/
def atEnd : Bool := stream.left.isEmpty

/-- The current token. -/
def peek? : Option Token := stream.left.head?.map (·.token)

/-- Whether the current token begins a directive. -/
def atDirective : Bool := stream.peek?.any Token.isKeyword

/-- The current token, or what stands behind the last one. -/
def found : Option Token :=
  match stream.left with
  | [] => stream.stop.token
  | current :: _ => some current.token

/-- The place of the current token, or of what stands behind the last one. -/
def place : Span :=
  match stream.left with
  | [] => stream.stop.span
  | current :: _ => current.span

/-- The position behind the current token. At the end, there is nothing to pass. -/
def advance : TokenStream := { stream with left := stream.left.tail }

/-- The position of the next keyword, or the end. The current token is not passed if it is one. -/
def synchronize : TokenStream :=
  { stream with left := stream.left.dropWhile fun located => !located.token.isKeyword }

/-- Going to the next keyword passes one token after the other, until there is none or it begins a
directive. -/
theorem synchronize_eq :
    stream.synchronize =
      if stream.atEnd || stream.atDirective then stream else stream.advance.synchronize := by
  obtain ⟨left, stop⟩ := stream
  cases left with
  | nil => rfl
  | cons current rest =>
    cases isKeyword : current.token.isKeyword <;>
      simp [synchronize, atEnd, atDirective, peek?, advance, isKeyword]

/-- The token that is seen ahead is the first of those that are left. -/
theorem left_of_peek {stream : TokenStream} {token : Token} (ahead : stream.peek? = some token) :
    ∃ span rest, stream.left = ⟨token, span⟩ :: rest := by
  obtain ⟨first, isFirst, rfl⟩ := Option.map_eq_some_iff.mp ahead
  obtain ⟨rest, isLeft⟩ := List.head?_eq_some_iff.mp isFirst
  exact ⟨first.span, rest, isLeft⟩

/-- A position at or behind another one. -/
structure Follows (after before : TokenStream) : Prop where
  left : after.left <:+ before.left
  stop : after.stop = before.stop

/-- A stream is at or behind its own place. -/
theorem Follows.refl : stream.Follows stream := ⟨List.suffix_refl _, rfl⟩

variable {stream}

/-- A place behind a place behind another is behind that other. -/
theorem Follows.trans {after middle before : TokenStream} (later : after.Follows middle)
    (earlier : middle.Follows before) : after.Follows before :=
  ⟨later.left.trans earlier.left, later.stop.trans earlier.stop⟩

/-- Taking a token moves forward, never back. -/
theorem follows_advance (stream : TokenStream) : stream.advance.Follows stream :=
  ⟨List.tail_suffix _, rfl⟩

/-- Going to the next keyword moves forward, never back. -/
theorem follows_synchronize (stream : TokenStream) : stream.synchronize.Follows stream :=
  ⟨List.dropWhile_suffix _, rfl⟩

end TokenStream

/-- Reads a value off a stream, or reports an error, and moves the stream forward. -/
structure FieldReader (α : Type) where
  run : TokenStream → Except ReadError α × TokenStream
  forward : ∀ stream, (run stream).2.Follows stream

namespace FieldReader

variable {α β : Type}

/-- Reads nothing. -/
protected def pure (value : α) : FieldReader α where
  run stream := (.ok value, stream)
  forward stream := .refl stream

/-- Reads one thing and then another that may depend on it. -/
protected def bind (reader : FieldReader α) (next : α → FieldReader β) : FieldReader β where
  run stream :=
    match reader.run stream with
    | (.ok value, after) => (next value).run after
    | (.error error, after) => (.error error, after)
  forward stream := by
    have first := reader.forward stream
    generalize reader.run stream = result at first
    obtain ⟨_ | value, after⟩ := result
    · exact first
    · exact ((next value).forward after).trans first

instance : Monad FieldReader where
  pure := FieldReader.pure
  bind := FieldReader.bind

/-- Reports a problem at a place. -/
def fail (problem : Problem) (span : Span) : FieldReader α where
  run stream := (.error ⟨problem, span⟩, stream)
  forward stream := .refl stream

/-- The place of the current token. -/
def place : FieldReader Span where
  run stream := (.ok stream.place, stream)
  forward stream := .refl stream

/-- Takes the current token, whatever it is. -/
def skip : FieldReader Unit where
  run stream := (.ok (), stream.advance)
  forward stream := stream.follows_advance

/-- Takes the current token if `accept` gives it a value. Otherwise the stream stays where it is,
and `what` names in the error what was wanted. -/
def expect (what : String) (accept : Token → Option α) : FieldReader (α × Span) where
  run stream :=
    match stream.peek?.bind accept with
    | some value => (.ok (value, stream.place), stream.advance)
    | none => (.error ⟨.expected what stream.found, stream.place⟩, stream)
  forward stream := by
    cases stream.peek?.bind accept with
    | some value => exact stream.follows_advance
    | none => exact .refl stream

/-- Reads what is to be read with the current token ahead, which is not taken by that. -/
def peeking (choose : Option Token → FieldReader α) : FieldReader α where
  run stream := (choose stream.peek?).run stream
  forward stream := (choose stream.peek?).forward stream

variable (what : String) (accept : Token → Option α) (choose : Option Token → FieldReader α)
  (first : Located) (rest : List Located) (stop : Stop)

/-- At the end, what is expected is missing at the end, and the stream stays there. -/
theorem run_expect_nil :
    (expect what accept).run ⟨[], stop⟩ =
      (.error ⟨.expected what stop.token, stop.span⟩, ⟨[], stop⟩) :=
  rfl

/-- What is expected is taken if it is accepted, and left where it is if not. -/
theorem run_expect_cons :
    (expect what accept).run ⟨first :: rest, stop⟩ =
      match accept first.token with
      | some value => (.ok (value, first.span), ⟨rest, stop⟩)
      | none => (.error ⟨.expected what first.token, first.span⟩, ⟨first :: rest, stop⟩) :=
  rfl

/-- A choice is made on seeing the next token, which is not taken for it. -/
theorem run_peeking_cons :
    (peeking choose).run ⟨first :: rest, stop⟩ =
      (choose first.token).run ⟨first :: rest, stop⟩ :=
  rfl

/-- The second of two readers begins where the first has got, and is not asked if the first
fails. -/
theorem run_bind (reader : FieldReader α) (next : α → FieldReader β) (stream : TokenStream) :
    (reader >>= next).run stream =
      match reader.run stream with
      | (.ok value, after) => (next value).run after
      | (.error error, after) => (.error error, after) :=
  rfl

/-- Reads the same field a number of times. -/
def times (reader : FieldReader α) : Nat → FieldReader (List α)
  | 0 => pure []
  | count + 1 => do
    let value ← reader
    let values ← times reader count
    return value :: values

end FieldReader

end TimedCommands.Script
