import Mathlib.Data.List.Forall2
import TimedCommands.Script.Program

/-!
# Segments of a script

A keyword and the tokens up to the next one make a segment. A script is read in one pass, and
nothing tells a reader where a segment ends; but no reader takes a keyword. So the fields of
a directive are read as if its segment were all there is, and when that fails, the stream is left
inside the segment or at its end (`Stays`). From there recovery finds the next keyword, and each
segment is taken from its first token to its last (`readNext_segment`).

A script is therefore read as if it were cut at its keywords first (`readAll_eq_outcomes`), and
a segment yields the same directive, or fails as well, whatever stands around it
(`readTokens_segments`). Only the token that an error names as found behind the segment depends on
what follows.
-/

namespace TimedCommands.Script

/-- Tokens without a keyword. -/
def IsPlain (tokens : List Located) : Prop := ∀ located ∈ tokens, located.token.isKeyword = false

/-- Tokens that begin with a keyword, if there are any. -/
def StartsDirective (tokens : List Located) : Prop :=
  ∀ first ∈ tokens.head?, first.token.isKeyword = true

/-- The first of the tokens that follow, or else what stood there before. -/
def Stop.before (stop : Stop) : List Located → Stop
  | [] => stop
  | first :: _ => ⟨some first.token, first.span⟩

/-- Where nothing follows, the next segment begins. -/
theorem startsDirective_nil : StartsDirective [] := nofun

/-- Tokens without a keyword are without one behind the first of them too. -/
theorem IsPlain.tail {first : Located} {rest : List Located} (plain : IsPlain (first :: rest)) :
    IsPlain rest :=
  fun located member => plain located (.tail _ member)

/-- At the start of a segment, or at the end, only a keyword or nothing can be seen ahead. -/
theorem StartsDirective.not_ahead {next : List Located} {stop : Stop} {token : Token}
    (starts : StartsDirective next) (noKeyword : token.isKeyword = false) :
    (TokenStream.mk next stop).peek? ≠ some token := by
  intro ahead
  obtain ⟨span, rest, rfl⟩ := TokenStream.left_of_peek ahead
  rw [starts _ rfl] at noKeyword
  cases noKeyword

/-! Readers that are given the tokens of one segment, or all that are left. -/

/-- What a reader makes of the tokens of a segment, and what it makes of them when the tokens `next`
follow: the same answer, with the stream left at the same token of the segment; or the segment was
too short, and the stream is left behind it. -/
inductive Agree {α : Type} (stop beyond : Stop) (next : List Located) :
    Except ReadError α × TokenStream → Except ReadError α × TokenStream → Prop where
  | same (answer : Except ReadError α) (rest : List Located) (plain : IsPlain rest) :
      Agree stop beyond next (answer, ⟨rest, stop⟩) (answer, ⟨rest ++ next, beyond⟩)
  | ranOut (what : String) :
      Agree stop beyond next (.error ⟨.expected what stop.token, stop.span⟩, ⟨[], stop⟩)
        (.error ⟨.expected what (beyond.before next).token, (beyond.before next).span⟩,
          ⟨next, beyond⟩)

/-- A reader stays inside a segment: given the tokens that follow as well, it does the same. -/
def Stays {α : Type} (stop beyond : Stop) (next : List Located) (reader : FieldReader α) : Prop :=
  ∀ own, IsPlain own →
    Agree stop beyond next (reader.run ⟨own, stop⟩) (reader.run ⟨own ++ next, beyond⟩)

section Stays

variable {α β : Type} {stop beyond : Stop} {next : List Located}

/-- Answering takes no token, so it stays within the segment. -/
theorem Stays.pure (value : α) : Stays stop beyond next (Pure.pure value) :=
  fun own plain => .same (.ok value) own plain

/-- Failing takes no token either, and fails alike with and without what follows. -/
theorem Stays.fail (problem : Problem) (span : Span) :
    Stays (α := α) stop beyond next (FieldReader.fail problem span) :=
  fun own plain => .same (.error ⟨problem, span⟩) own plain

/-- Readers that stay inside a segment do so one behind the other. -/
theorem Stays.bind {reader : FieldReader α} {following : α → FieldReader β}
    (first : Stays stop beyond next reader)
    (second : ∀ value, Stays stop beyond next (following value)) :
    Stays stop beyond next (reader >>= following) := by
  intro own plain
  have agree := first own plain
  rw [FieldReader.run_bind, FieldReader.run_bind]
  generalize reader.run ⟨own, stop⟩ = result,
    reader.run ⟨own ++ next, beyond⟩ = resultOfAll at agree
  cases agree with
  | same answer rest plainRest =>
    cases answer with
    | ok value => exact second value rest plainRest
    | error error => exact .same (.error error) rest plainRest
  | ranOut what => exact .ranOut what

/-- A reader of one token that takes no keyword does not take the next one. -/
theorem Stays.expect (starts : StartsDirective next) (what : String) {accept : Token → Option α}
    (noKeyword : ∀ keyword, accept (.keyword keyword) = none) :
    Stays stop beyond next (FieldReader.expect what accept) := by
  intro own plain
  cases own with
  | cons found rest =>
    rw [List.cons_append, FieldReader.run_expect_cons, FieldReader.run_expect_cons]
    cases accept found.token with
    | some value => exact .same (.ok (value, found.span)) rest plain.tail
    | none => exact .same (.error _) (found :: rest) plain
  | nil =>
    cases next with
    | nil => exact .ranOut what
    | cons first later =>
      obtain ⟨token, span⟩ := first
      obtain ⟨keyword, rfl⟩ : ∃ keyword, token = .keyword keyword := by
        have isKeyword : token.isKeyword = true := starts _ rfl
        cases token <;> simp_all [Token.isKeyword]
      rw [List.nil_append, FieldReader.run_expect_nil, FieldReader.run_expect_cons,
        noKeyword keyword]
      exact .ranOut what

/-- A reader that stays within the segment does so however often it is repeated. -/
theorem Stays.times {reader : FieldReader α} (once : Stays stop beyond next reader) (count : Nat) :
    Stays stop beyond next (FieldReader.times reader count) := by
  induction count with
  | zero => exact .pure []
  | succ count ih => exact once.bind fun value => ih.bind fun values => .pure (value :: values)

variable (starts : StartsDirective next)

include starts

/-- A time is read within the segment: a keyword is no time and is not taken. -/
theorem stays_readTime : Stays stop beyond next readTime := by
  refine (Stays.expect starts _ fun _ => rfl).bind fun ⟨literal, span⟩ => ?_
  dsimp only
  cases literalTime? literal with
  | some time => exact .pure time
  | none => exact .fail _ span

/-- A name is read within the segment: a keyword is no name and is not taken. -/
theorem stays_readName (what : String) : Stays stop beyond next (readName what) :=
  .expect starts what fun _ => rfl

/-- The name of a group is read within the segment. -/
theorem stays_readGroup : Stays stop beyond next readGroup :=
  (stays_readName starts _).bind fun (name, _) => .pure name

/-- The name of a placeholder is read within the segment. -/
theorem stays_readPlaceholder : Stays stop beyond next readPlaceholder :=
  (stays_readName starts _).bind fun (name, _) => .pure name

omit starts in
/-- Whether digits fit an integer is judged without a look at the tokens. -/
theorem stays_integerOf (literal : String) (span : Span) :
    Stays stop beyond next (integerOf literal span) := by
  rw [integerOf]
  cases literalInt64? literal with
  | some number => exact .pure number
  | none => exact .fail _ span

omit starts in
/-- What digits are as a real is judged without a look at the tokens. -/
theorem stays_realOf (literal : String) (span : Span) :
    Stays stop beyond next (realOf literal span) := by
  rw [realOf]
  cases literalReal? literal with
  | some number => exact .pure number
  | none => exact .fail _ span

/-- An integer is read within the segment. -/
theorem stays_readInteger (what : String) : Stays stop beyond next (readInteger what) :=
  (Stays.expect starts what fun _ => rfl).bind fun (literal, span) => stays_integerOf literal span

/-- A number of either kind is read within the segment. -/
theorem stays_readNumber (what : String) : Stays stop beyond next (readNumber what) := by
  refine (Stays.expect starts what fun _ => rfl).bind fun ⟨⟨isReal, literal⟩, span⟩ => ?_
  cases isReal with
  | true => exact (stays_realOf literal span).bind fun number => .pure _
  | false => exact (stays_integerOf literal span).bind fun number => .pure _

/-- A real is read within the segment. -/
theorem stays_readReal (what : String) : Stays stop beyond next (readReal what) :=
  (Stays.expect starts what fun _ => rfl).bind fun (literal, span) => stays_realOf literal span

/-- An index and a placeholder are read within the segment, the one behind the other. -/
theorem stays_readSlot (what : String) : Stays stop beyond next (readSlot what) :=
  (stays_readInteger starts what).bind fun command =>
    (stays_readPlaceholder starts).bind fun placeholder => .pure (RawSlot.mk command placeholder)

/-- A value is read within the segment, whichever of its kinds is ahead. -/
theorem stays_readValue : Stays stop beyond next readValue := by
  intro own plain
  by_cases isText : ∃ raw, (TokenStream.mk own stop).peek? = some (.text raw)
  case pos =>
    obtain ⟨raw, isText⟩ := isText
    obtain ⟨span, rest, rfl⟩ := TokenStream.left_of_peek isText
    rw [List.cons_append, run_readValue_text, run_readValue_text]
    exact .same (.ok _) rest plain.tail
  case neg =>
    have noText : ∀ raw, (TokenStream.mk (own ++ next) beyond).peek? ≠ some (.text raw) := by
      intro raw ahead
      cases own with
      | nil => exact starts.not_ahead rfl ahead
      | cons found rest => exact isText ⟨raw, ahead⟩
    rw [run_readValue_of_not_text fun raw ahead => isText ⟨raw, ahead⟩,
      run_readValue_of_not_text noText]
    exact stays_readNumber starts "value" own plain

/-- A packing is read within the segment; a keyword ahead leaves it at the rectangular one. -/
theorem stays_readPacking : Stays stop beyond next readPacking := by
  intro own plain
  by_cases isName : ∃ name, (TokenStream.mk own stop).peek? = some (.name name)
  case pos =>
    obtain ⟨name, isName⟩ := isName
    obtain ⟨span, rest, rfl⟩ := TokenStream.left_of_peek isName
    rw [List.cons_append, run_readPacking_name, run_readPacking_name]
    cases Packing.ofName? name with
    | some packing => exact .same (.ok packing) rest plain.tail
    | none => exact .same (.error _) _ plain
  case neg =>
    have noName : ∀ name, (TokenStream.mk (own ++ next) beyond).peek? ≠ some (.name name) := by
      intro name ahead
      cases own with
      | nil => exact starts.not_ahead rfl ahead
      | cons found rest => exact isName ⟨name, ahead⟩
    rw [run_readPacking_of_not_name fun name ahead => isName ⟨name, ahead⟩,
      run_readPacking_of_not_name noName]
    exact .same (.ok Packing.rectangular) own plain

/-- The fields of a lattice are read within the segment, for either number of axes. -/
theorem stays_readLattice (rank : Rank) : Stays stop beyond next (readLattice rank) :=
  ((stays_readSlot starts _).times _).bind fun targets =>
  ((stays_readInteger starts _).times _).bind fun dims =>
  ((stays_readReal starts _).times _).bind fun origin =>
  ((stays_readReal starts _).times _).bind fun lengths =>
  (stays_readPacking starts).bind fun packing =>
    .pure (LatticeSpec.mk targets dims origin lengths packing)

/-- Whatever its keyword, a directive reads what follows its group within the segment. -/
theorem stays_readAction (arity : ArityLookup) (keyword : Keyword) :
    Stays stop beyond next (readAction arity keyword) := by
  cases keyword with
  | addCommand =>
    refine (stays_readName starts _).bind fun ⟨typeName, span⟩ => ?_
    dsimp only
    cases arity typeName with
    | none => exact .fail _ span
    | some count => exact ((stays_readPlaceholder starts).times count).bind fun _ => .pure _
  | bindConstant =>
    exact (stays_readSlot starts _).bind fun _ => (stays_readValue starts).bind fun _ => .pure _
  | bindSequence =>
    exact (stays_readSlot starts _).bind fun _ =>
      (stays_readNumber starts _).bind fun _ => (stays_readNumber starts _).bind fun _ => .pure _
  | bindArgument =>
    exact (stays_readSlot starts _).bind fun _ => (stays_readSlot starts _).bind fun _ => .pure _
  | bindLattice2d => exact (stays_readLattice starts .two).bind fun _ => .pure _
  | bindLattice3d => exact (stays_readLattice starts .three).bind fun _ => .pure _
  | executeSequence =>
    exact (stays_readInteger starts _).bind fun _ =>
      (stays_readInteger starts _).bind fun _ => .pure _
  | toggleCommand | enableCommand | disableCommand =>
    exact (stays_readInteger starts _).bind fun _ => .pure _
  | createGroup | toggleAll | enableAll | disableAll => exact .pure _

/-- The fields of a directive are read within its segment. -/
theorem stays_readFields (arity : ArityLookup) (keyword : Keyword) :
    Stays stop beyond next (readFields arity keyword) :=
  (stays_readTime starts).bind fun time => (stays_readGroup starts).bind fun group =>
    (stays_readAction starts arity keyword).bind fun action => .pure (Directive.mk time group action)

end Stays

/-- Reading the fields of a directive from all tokens that are left is reading them from its
segment, and the stream is left where it is left then, with what follows the segment behind that. -/
theorem readFields_uncut (beyond : Stop) (arity : ArityLookup) (keyword : Keyword)
    {own next : List Located} (plain : IsPlain own) (starts : StartsDirective next) :
    ∃ answer rest, IsPlain rest ∧
      (readFields arity keyword).run ⟨own, beyond.before next⟩ =
        (answer, ⟨rest, beyond.before next⟩) ∧
      (readFields arity keyword).run ⟨own ++ next, beyond⟩ = (answer, ⟨rest ++ next, beyond⟩) := by
  have agree : Agree (beyond.before next) beyond next _ _ :=
    stays_readFields starts arity keyword own plain
  generalize (readFields arity keyword).run ⟨own, beyond.before next⟩ = result,
    (readFields arity keyword).run ⟨own ++ next, beyond⟩ = resultOfAll at agree
  cases agree with
  | same answer rest plainRest => exact ⟨answer, rest, plainRest, rfl, rfl⟩
  | ranOut what => exact ⟨_, [], nofun, rfl, rfl⟩

/-! One segment at a time. -/

/-- What the tokens of a segment yield behind its keyword. They have to be used up. -/
def readSegment (stop : Stop) (arity : ArityLookup) (keyword : Keyword) (own : List Located) :
    Except ReadError Directive :=
  match (readFields arity keyword).run ⟨own, stop⟩ with
  | (.error error, _) => .error error
  | (.ok directive, after) =>
    match after.left with
    | [] => .ok directive
    | extra :: _ => .error ⟨.trailing extra.token directive, extra.span⟩

/-- What a segment yields depends on what follows only in the token that an error names as
found behind the segment. -/
theorem readSegment_stop (stop other : Stop) (arity : ArityLookup) (keyword : Keyword)
    {own : List Located} (plain : IsPlain own) :
    readSegment stop arity keyword own = readSegment other arity keyword own ∨
      ∃ what,
        readSegment stop arity keyword own = .error ⟨.expected what stop.token, stop.span⟩ ∧
        readSegment other arity keyword own = .error ⟨.expected what other.token, other.span⟩ := by
  have agree : Agree stop other [] _ _ :=
    stays_readFields startsDirective_nil arity keyword own plain
  rw [readSegment, readSegment]
  rw [List.append_nil] at agree
  generalize (readFields arity keyword).run ⟨own, stop⟩ = result,
    (readFields arity keyword).run ⟨own, other⟩ = resultOfOther at agree
  cases agree with
  | same answer rest _ => cases answer <;> exact .inl (by rw [List.append_nil])
  | ranOut what => exact .inr ⟨what, rfl, rfl⟩

/-- The tokens up to the next keyword. -/
def ownTokens (tokens : List Located) : List Located :=
  tokens.takeWhile fun located => !located.token.isKeyword

/-- The tokens from the next keyword on. -/
def fromKeyword (tokens : List Located) : List Located :=
  tokens.dropWhile fun located => !located.token.isKeyword

/-- No keyword is among the tokens up to the next keyword. -/
theorem isPlain_ownTokens (tokens : List Located) : IsPlain (ownTokens tokens) := by
  intro located member
  simpa using List.all_eq_true.mp List.all_takeWhile located member

/-- The rest from the next keyword on begins with that keyword, if it is not empty. -/
theorem startsDirective_fromKeyword (tokens : List Located) :
    StartsDirective (fromKeyword tokens) := by
  intro first isFirst
  have keeps := List.head?_dropWhile_not (fun located : Located => !located.token.isKeyword) tokens
  rw [fromKeyword] at isFirst
  rw [isFirst] at keeps
  simpa using keeps

/-- The tokens up to the next keyword and those from it on are all of them. -/
theorem ownTokens_append_fromKeyword (tokens : List Located) :
    ownTokens tokens ++ fromKeyword tokens = tokens :=
  List.takeWhile_append_dropWhile

/-- Plain tokens in front of a segment are its predecessor's own, and no others are. -/
theorem ownTokens_append {own next : List Located} (plain : IsPlain own)
    (starts : StartsDirective next) : ownTokens (own ++ next) = own := by
  rw [ownTokens, List.takeWhile_append_of_pos fun located member => by simp [plain located member]]
  cases next with
  | nil => simp
  | cons first later => simp [starts first rfl]

/-- The rest behind plain tokens begins where the next segment does. -/
theorem fromKeyword_append {own next : List Located} (plain : IsPlain own)
    (starts : StartsDirective next) : fromKeyword (own ++ next) = next := by
  rw [fromKeyword, List.dropWhile_append_of_pos fun located member => by
    simp [plain located member]]
  cases next with
  | nil => rfl
  | cons first later => simp [starts first rfl]

/-- Recovery passes what is left of a segment, and no more. -/
theorem synchronize_append {own next : List Located} (plain : IsPlain own)
    (starts : StartsDirective next) (stop : Stop) :
    (TokenStream.mk (own ++ next) stop).synchronize = ⟨next, stop⟩ :=
  congrArg (TokenStream.mk · stop) (fromKeyword_append plain starts)

/-- A keyword is passed together with its segment, whether that is well-formed or not, and the next
keyword is what is read next. -/
theorem readNext_keyword (arity : ArityLookup) (keyword : Keyword) (span : Span) (stop : Stop)
    {own next : List Located} (plain : IsPlain own) (starts : StartsDirective next) :
    readNext arity ⟨⟨.keyword keyword, span⟩ :: (own ++ next), stop⟩ =
      (readSegment (stop.before next) arity keyword own, ⟨next, stop⟩) := by
  have run : (readDirective arity).run ⟨⟨.keyword keyword, span⟩ :: (own ++ next), stop⟩ =
      (readFields arity keyword).run ⟨own ++ next, stop⟩ := rfl
  obtain ⟨answer, rest, plainRest, ofOwn, ofAll⟩ :=
    readFields_uncut stop arity keyword plain starts
  rw [readNext, run, ofAll, readSegment, ofOwn]
  cases answer with
  | error error => exact congrArg _ (synchronize_append plainRest starts stop)
  | ok directive =>
    cases rest with
    | cons extra later =>
      have noKeyword : extra.token.isKeyword = false := plainRest extra List.mem_cons_self
      have ahead : (TokenStream.mk (extra :: later ++ next) stop).peek? = some extra.token := rfl
      simp only [ahead, noKeyword, Bool.false_eq_true, if_false,
        synchronize_append plainRest starts stop]
      rfl
    | nil =>
      cases next with
      | nil => rfl
      | cons first later =>
        have isKeyword : first.token.isKeyword = true := starts first rfl
        simp [TokenStream.peek?, isKeyword]

/-- Tokens before the first keyword are passed together. -/
theorem readNext_stray (arity : ArityLookup) (stop : Stop) {first : Located}
    (noKeyword : first.token.isKeyword = false) (rest : List Located) :
    readNext arity ⟨first :: rest, stop⟩ =
      (.error ⟨.stray first.token, first.span⟩, ⟨fromKeyword rest, stop⟩) := by
  obtain ⟨token, span⟩ := first
  have run : (readDirective arity).run ⟨⟨token, span⟩ :: rest, stop⟩ =
      (.error ⟨.stray token, span⟩, ⟨⟨token, span⟩ :: rest, stop⟩) := by
    cases token with
    | keyword keyword => cases noKeyword
    | _ => rfl
  rw [readNext, run]
  simp [TokenStream.synchronize, fromKeyword, noKeyword]

/-- What stands behind the tokens of a segment, seen from there: the next token, or the end of the
source at a byte offset. -/
def stopAt (sourceLength : Nat) (next : List Located) : Stop :=
  (TokenStream.ofTokens next sourceLength).stop.before next

/-- The directive or error of each segment in order, and of the tokens before the first, when the
tokens are cut at the keywords. -/
def outcomes (arity : ArityLookup) (sourceLength : Nat) (tokens : List Located) :
    List (Except ReadError Directive) :=
  match tokens with
  | [] => []
  | first :: rest =>
    let next := fromKeyword rest
    let outcome := match first.token with
      | .keyword keyword =>
        readSegment (stopAt sourceLength next) arity keyword (ownTokens rest)
      | other => .error ⟨.stray other, first.span⟩
    outcome :: outcomes arity sourceLength next
termination_by tokens.length
decreasing_by exact Nat.lt_succ_of_le (List.dropWhile_suffix _).length_le

/-- A script is read in place as it is read when it is cut at its keywords first. -/
theorem readAll_eq_outcomes (arity : ArityLookup) (sourceLength : Nat) (tokens : List Located) :
    readAll arity (.ofTokens tokens sourceLength) = outcomes arity sourceLength tokens := by
  fun_induction outcomes arity sourceLength tokens with
  | case1 =>
    rw [readAll]
    rfl
  | case2 first rest next outcome ih =>
    rw [readAll, dif_pos (by rfl), ← ih]
    suffices found : readNext arity (.ofTokens (first :: rest) sourceLength) =
        (outcome, .ofTokens next sourceLength) by
      rw [found]
    obtain ⟨token, span⟩ := first
    cases token with
    | keyword keyword =>
      have taken := readNext_keyword arity keyword span
        (TokenStream.ofTokens rest sourceLength).stop
        (isPlain_ownTokens rest) (startsDirective_fromKeyword rest)
      rw [ownTokens_append_fromKeyword] at taken
      exact taken
    | _ => exact readNext_stray arity _ rfl rest

/-- A program is what comes of its tokens segment by segment. -/
theorem readTokens_eq_outcomes (arity : ArityLookup) (sourceLength : Nat) (tokens : List Located) :
    readTokens arity sourceLength tokens =
      Program.ofOutcomes (outcomes arity sourceLength tokens) :=
  congrArg Program.ofOutcomes (readAll_eq_outcomes arity sourceLength tokens)

/-! Scripts as lists of segments. -/

/-- A keyword with the tokens up to the next one. -/
structure Segment where
  keyword : Keyword
  span : Span
  own : List Located
  plain : IsPlain own

namespace Segment

/-- All tokens of a segment. -/
def tokens (segment : Segment) : List Located :=
  ⟨.keyword segment.keyword, segment.span⟩ :: segment.own

/-- A row of segments begins with a keyword, or is empty. -/
theorem startsDirective_flatMap (segments : List Segment) :
    StartsDirective (segments.flatMap tokens) := by
  intro first isFirst
  cases segments with
  | nil => cases isFirst
  | cons segment rest =>
    cases isFirst
    rfl

end Segment

/-- The outcome of tokens before the first keyword: one error, if there are any. -/
def strayOutcome : List Located → List (Except ReadError Directive)
  | [] => []
  | first :: _ => [.error ⟨.stray first.token, first.span⟩]

/-- Tokens in front of the first keyword give one error for the first of them, and no directive. -/
theorem outcomes_opening (arity : ArityLookup) (sourceLength : Nat) {opening next : List Located}
    (plain : IsPlain opening) (starts : StartsDirective next) :
    outcomes arity sourceLength (opening ++ next) =
      strayOutcome opening ++ outcomes arity sourceLength next := by
  cases opening with
  | nil => rfl
  | cons first rest =>
    have noKeyword : first.token.isKeyword = false := plain first List.mem_cons_self
    rw [List.cons_append, outcomes, fromKeyword_append plain.tail starts]
    obtain ⟨token, span⟩ := first
    cases token with
    | keyword keyword => simp [Token.isKeyword] at noKeyword
    | _ => rfl

/-- A segment in front of others gives one outcome, and the others give theirs. -/
theorem outcomes_segment (arity : ArityLookup) (sourceLength : Nat) (segment : Segment)
    {next : List Located} (starts : StartsDirective next) :
    outcomes arity sourceLength (segment.tokens ++ next) =
      readSegment (stopAt sourceLength next) arity segment.keyword segment.own ::
        outcomes arity sourceLength next := by
  rw [Segment.tokens, List.cons_append, outcomes, fromKeyword_append segment.plain starts,
    ownTokens_append segment.plain starts]

/-- What a segment yields among others, and the program that it is alone: the same directive,
or an error in both. Two errors differ at most in the token found behind the segment. -/
inductive YieldsAlike : Except ReadError Directive → Program → Prop where
  | directive (directive : Directive) : YieldsAlike (.ok directive) ⟨[directive], []⟩
  | error {error alone : ReadError}
      (alike : error = alone ∨
        ∃ what found foundAlone,
          error.problem = .expected what found ∧ alone.problem = .expected what foundAlone) :
      YieldsAlike (.error error) ⟨[], [alone]⟩

/-- A segment on its own gives one outcome. -/
theorem outcomes_alone (arity : ArityLookup) (sourceLength : Nat) (segment : Segment) :
    outcomes arity sourceLength segment.tokens =
      [readSegment (stopAt sourceLength []) arity segment.keyword segment.own] := by
  have cut : outcomes arity sourceLength (segment.tokens ++ []) = _ :=
    outcomes_segment arity sourceLength segment startsDirective_nil
  rwa [List.append_nil, outcomes] at cut

/-- A segment gives on its own what it gives with another end of the source behind it. -/
theorem yieldsAlike_segment (arity : ArityLookup) (stop : Stop) (lengthAlone : Nat)
    (segment : Segment) :
    YieldsAlike (readSegment stop arity segment.keyword segment.own)
      (readTokens arity lengthAlone segment.tokens) := by
  rw [readTokens_eq_outcomes, outcomes_alone]
  rcases readSegment_stop stop (stopAt lengthAlone []) arity segment.keyword segment.plain with
    same | ⟨what, found, foundAlone⟩
  · rw [same]
    cases readSegment (stopAt lengthAlone []) arity segment.keyword segment.own with
    | ok directive => exact .directive directive
    | error error => exact .error (.inl rfl)
  · rw [found, foundAlone]
    exact .error (.inr ⟨what, _, _, rfl, rfl⟩)

/-- The directives of outcomes are those of the programs that they are alone, one behind the
other. -/
theorem directives_of_yieldsAlike {outcomes : List (Except ReadError Directive)}
    {segments : List Segment} {alone : Segment → Program}
    (alike : List.Forall₂ (fun segment outcome => YieldsAlike outcome (alone segment))
      segments outcomes) :
    (Program.ofOutcomes outcomes).directives =
      segments.flatMap fun segment => (alone segment).directives := by
  induction alike with
  | nil => rfl
  | @cons segment outcome rest outcomes first _ ih =>
    rw [List.flatMap_cons, ← ih]
    generalize alone segment = program at first
    cases first <;> rfl

/-- Each segment of a source gives there what it gives on its own. -/
theorem outcomes_segments (arity : ArityLookup) (sourceLength lengthAlone : Nat)
    (segments : List Segment) :
    List.Forall₂
      (fun segment outcome => YieldsAlike outcome (readTokens arity lengthAlone segment.tokens))
      segments (outcomes arity sourceLength (segments.flatMap Segment.tokens)) := by
  induction segments with
  | nil =>
    rw [List.flatMap_nil, outcomes]
    exact .nil
  | cons segment rest ih =>
    rw [List.flatMap_cons, outcomes_segment arity sourceLength segment
      (Segment.startsDirective_flatMap rest)]
    exact .cons (yieldsAlike_segment arity _ lengthAlone segment) ih

/-- A script yields one error for the tokens before its first keyword, if there are any, and
then for each segment one directive or one error, in order. The directive is the one that the
segment yields alone, whatever stands around it, and a segment that yields an error among
others yields one alone. Reading goes on exactly where a segment ends, also after an error. -/
theorem readTokens_segments (arity : ArityLookup) (sourceLength lengthAlone : Nat)
    (opening : {tokens : List Located // IsPlain tokens}) (segments : List Segment) :
    let whole := readTokens arity sourceLength (opening ++ segments.flatMap Segment.tokens)
    let alone (segment : Segment) := readTokens arity lengthAlone segment.tokens
    whole.directives = segments.flatMap (fun segment => (alone segment).directives) ∧
      (∃ outcomes,
        whole = Program.ofOutcomes (strayOutcome opening ++ outcomes) ∧
          List.Forall₂ (fun segment outcome => YieldsAlike outcome (alone segment))
            segments outcomes) ∧
      ∀ (segment : Segment) (later : List Segment),
        let next := later.flatMap Segment.tokens
        (readNext arity (.ofTokens (segment.tokens ++ next) sourceLength)).2 =
          .ofTokens next sourceLength := by
  intro whole alone
  have starts := Segment.startsDirective_flatMap segments
  have cut : whole = Program.ofOutcomes (strayOutcome opening ++
      outcomes arity sourceLength (segments.flatMap Segment.tokens)) := by
    rw [← outcomes_opening arity sourceLength opening.property starts]
    exact readTokens_eq_outcomes arity sourceLength _
  have alike := outcomes_segments arity sourceLength lengthAlone segments
  refine ⟨?_, ⟨_, cut, alike⟩, ?_⟩
  · rw [← directives_of_yieldsAlike alike, cut]
    cases opening.val <;> rfl
  · intro segment later next
    exact congrArg Prod.snd (readNext_keyword arity segment.keyword segment.span _ segment.plain
      (Segment.startsDirective_flatMap later))

end TimedCommands.Script
