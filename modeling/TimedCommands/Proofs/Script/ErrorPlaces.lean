import TimedCommands.Proofs.Script.Segments
import TimedCommands.Proofs.Script.Spans
import TimedCommands.Proofs.Script.Tiling
import TimedCommands.Proofs.Text.Position

/-!
# Places of errors

A segment reports its error at one of its own tokens behind the keyword, or at what stands behind
them, which is the next keyword or the end of the source (`place_of_readSegment`). So its place is
behind its own keyword and not behind the next one, and the errors of a script are in the order of
their places (`errors_ordered`). Every place is made of boundaries of the source, since tokens are,
and no other offset is shown with its line and column (`errors_placed`).
-/

namespace TimedCommands.Script

open Text (IsBoundary Position)

/-- Tokens whose places all have a property are alike to themselves with that property. -/
theorem alike_self {holds : Span → Prop} {tokens : List Located}
    (placed : ∀ located ∈ tokens, holds located.span) :
    List.Forall₂ (Alike fun place _ => holds place) tokens tokens :=
  List.forall₂_same.mpr fun located member => ⟨rfl, placed located member⟩

/-- What holds of the places of the tokens of a segment and of the place behind it, holds of the place
of its error. -/
theorem place_of_readSegment (holds : Span → Prop) {stop : Stop} {arity : ArityLookup}
    {keyword : Keyword} {own : List Located} {error : ReadError}
    (failed : readSegment stop arity keyword own = .error error)
    (placed : ∀ located ∈ own, holds located.span) (behind : holds stop.span) : holds error.span := by
  have stops : AlikeStops (fun place _ => holds place) stop stop := ⟨rfl, behind⟩
  have alike := alike_readSegment stops arity keyword (alike_self placed)
  rw [failed] at alike
  cases alike with
  | error problem place => exact place

/-- What holds of the places of all tokens and of the end of the source, holds of the places of the
errors. -/
theorem place_of_errors (holds : Span → Prop) (arity : ArityLookup) {sourceLength : Nat}
    {tokens : List Located} (placed : ∀ located ∈ tokens, holds located.span)
    (atEnd : holds ⟨sourceLength, sourceLength⟩) :
    ∀ error ∈ (readTokens arity sourceLength tokens).errors, holds error.span := by
  have alike : List.Forall₂ (AlikeOutcomes fun place _ => holds place)
      (outcomes arity sourceLength tokens) (outcomes arity sourceLength tokens) :=
    alike_outcomes arity atEnd (alike_self placed)
  rw [List.forall₂_same] at alike
  intro error member
  rw [readTokens_eq_outcomes] at member
  obtain ⟨outcome, isOutcome, isError⟩ := List.mem_filterMap.mp member
  cases outcome with
  | ok directive => cases isError
  | error found =>
    cases isError
    cases alike _ isOutcome with
    | error problem place => exact place

/-- An offset at which tokens may report an error: not before the first of them, and behind it if it
is a keyword. -/
def IsReportable (tokens : List Located) (offset : Nat) : Prop :=
  ∃ first ∈ tokens.head?, first.span.start ≤ offset ∧
    (first.token.isKeyword = true → first.span.start < offset)

/-- Tokens that follow one another in a source of some length. -/
structure Ordered (sourceLength : Nat) (tokens : List Located) : Prop where
  increasing : tokens.Pairwise fun one other => one.span.start < other.span.start
  inside : ∀ located ∈ tokens, located.span.start < sourceLength

/-- The last of tokens in order are in order. -/
theorem Ordered.suffix {sourceLength : Nat} {tokens later : List Located}
    (ordered : Ordered sourceLength tokens) (isSuffix : later <:+ tokens) : Ordered sourceLength later :=
  ⟨ordered.increasing.sublist isSuffix.sublist,
    fun located member => ordered.inside located (isSuffix.mem member)⟩

/-- The place behind a segment is behind all of its tokens. -/
theorem Ordered.lt_stopAt {sourceLength : Nat} {own later : List Located}
    (ordered : Ordered sourceLength (own ++ later)) :
    ∀ located ∈ own, located.span.start < (stopAt sourceLength later).span.start := by
  intro located member
  cases later with
  | nil => exact ordered.inside located (List.mem_append_left _ member)
  | cons next _ => exact (List.pairwise_append.mp ordered.increasing).2.2 located member next List.mem_cons_self

/-- What the first segment reports is reported at one of its tokens, or at the place behind it. -/
theorem outcome_reportable {arity : ArityLookup} {sourceLength : Nat} {first : Located}
    {own next : List Located} {error : ReadError}
    (ordered : Ordered sourceLength ((first :: own) ++ next))
    (failed : (match first.token with
      | .keyword keyword => readSegment (stopAt sourceLength next) arity keyword own
      | other => .error ⟨.stray other, first.span⟩) = .error error) :
    IsReportable (first :: own) error.span.start ∧
      error.span.start ≤ (stopAt sourceLength next).span.start := by
  have firstBefore := ordered.lt_stopAt first List.mem_cons_self
  split at failed
  · have behindFirst : first.span.start < error.span.start := by
      refine place_of_readSegment (fun place => first.span.start < place.start) failed
        (fun located member => ?_) firstBefore
      exact (List.pairwise_cons.mp ordered.increasing).1 located (List.mem_append_left _ member)
    have beforeNext : error.span.start ≤ (stopAt sourceLength next).span.start :=
      place_of_readSegment (fun place => place.start ≤ (stopAt sourceLength next).span.start)
        failed (fun located member => (ordered.lt_stopAt located (.tail _ member)).le) le_rfl
    exact ⟨⟨first, rfl, behindFirst.le, fun _ => behindFirst⟩, beforeNext⟩
  · rename_i noKeyword
    cases failed
    refine ⟨⟨first, rfl, le_rfl, fun isKeyword => ?_⟩, firstBefore.le⟩
    cases isToken : first.token with
    | keyword keyword => exact absurd isToken (noKeyword keyword)
    | _ => simp [isToken, Token.isKeyword] at isKeyword

/-- What later segments report is reported behind the keyword of the first of them. -/
theorem stopAt_lt_of_reportable {sourceLength offset : Nat} {next : List Located}
    (starts : StartsDirective next) (reportable : IsReportable next offset) :
    (stopAt sourceLength next).span.start < offset := by
  obtain ⟨first, isFirst, -, behind⟩ := reportable
  have isKeyword := starts first isFirst
  cases next with
  | nil => cases isFirst
  | cons found later =>
    cases isFirst
    exact behind isKeyword

/-- The errors of a script are at increasing places. -/
theorem errors_ordered (arity : ArityLookup) {sourceLength : Nat} {tokens : List Located}
    (ordered : Ordered sourceLength tokens) :
    let errors := (readTokens arity sourceLength tokens).errors
    errors.Pairwise (fun one other => one.span.start < other.span.start) ∧
      ∀ error ∈ errors, IsReportable tokens error.span.start := by
  dsimp only
  rw [readTokens_eq_outcomes]
  fun_induction outcomes arity sourceLength tokens with
  | case1 => exact ⟨.nil, List.forall_mem_nil _⟩
  | case2 first rest next outcome =>
    rename_i ih
    have cut : ownTokens rest ++ next = rest := ownTokens_append_fromKeyword rest
    have whole : Ordered sourceLength ((first :: ownTokens rest) ++ next) := by
      rwa [List.cons_append, cut]
    obtain ⟨increasing, reportable⟩ := ih (whole.suffix (List.suffix_append _ _))
    have firstBefore := whole.lt_stopAt first List.mem_cons_self
    let errors := (Program.ofOutcomes (outcomes arity sourceLength next)).errors
    have behind : ∀ error ∈ errors, (stopAt sourceLength next).span.start < error.span.start :=
      fun error member => stopAt_lt_of_reportable (startsDirective_fromKeyword rest) (reportable error member)
    have later : ∀ error ∈ errors, IsReportable (first :: rest) error.span.start := by
      intro error member
      have behindFirst := firstBefore.trans (behind error member)
      exact ⟨first, rfl, behindFirst.le, fun _ => behindFirst⟩
    cases isOutcome : outcome with
    | ok directive => exact ⟨increasing, later⟩
    | error error =>
      obtain ⟨own, beforeNext⟩ := outcome_reportable whole isOutcome
      refine ⟨.cons (fun other member => ?_) increasing, List.forall_mem_cons.mpr ⟨own, later⟩⟩
      exact beforeNext.trans_lt (behind other member)

/-- The places of the errors of a source that has tokens are between boundaries of the source, they are
in the order of the errors, and they are in the order of the lines and columns that stand for them. So
no other offset is shown like that of an error. -/
theorem errors_placed {source : String} {tokens : List Located} (lexed : lex source = .ok tokens)
    (arity : ArityLookup) :
    ∃ program, read arity source = .ok program ∧
      (∀ error ∈ program.errors,
        error.span.start ≤ error.span.stop ∧ error.span.stop ≤ source.utf8ByteSize ∧
          IsBoundary source error.span.start ∧ IsBoundary source error.span.stop) ∧
      program.errors.Pairwise (fun one other => one.span.start < other.span.start) ∧
      StrictMonoOn (fun offset => (Position.ofOffset source offset).key)
        {offset | IsBoundary source offset} ∧
      ∀ error ∈ program.errors, ∀ offset, IsBoundary source offset →
        Position.ofOffset source offset = Position.ofOffset source error.span.start →
          offset = error.span.start := by
  have tiling := lex_tiles source
  rw [lexed] at tiling
  have places : ∀ error ∈ (readTokens arity source.utf8ByteSize tokens).errors,
      error.span.start ≤ error.span.stop ∧ error.span.stop ≤ source.utf8ByteSize ∧
        IsBoundary source error.span.start ∧ IsBoundary source error.span.stop := by
    refine place_of_errors (fun place => place.start ≤ place.stop ∧
      place.stop ≤ source.utf8ByteSize ∧ IsBoundary source place.start ∧ IsBoundary source place.stop)
      arity (fun located member => ?_) ?_
    · exact ⟨(tiling.nonempty located member).le, (tiling.inside located member).2,
        tiling.boundary located member⟩
    · exact ⟨le_rfl, le_rfl, Text.isBoundary_end source, Text.isBoundary_end source⟩
  have increasing : tokens.Pairwise fun one other => one.span.start < other.span.start :=
    tiling.ordered.imp_of_mem fun member _ before => (tiling.nonempty _ member).trans_le before
  have inside : ∀ located ∈ tokens, located.span.start < source.utf8ByteSize := fun located member =>
    (tiling.nonempty located member).trans_le (tiling.inside located member).2
  have monotone := Position.strictMonoOn_ofOffset source
  refine ⟨readTokens arity source.utf8ByteSize tokens, ?_, places,
    (errors_ordered arity ⟨increasing, inside⟩).1, monotone, fun error member offset boundary same => ?_⟩
  · rw [read, lexed]
  · exact monotone.injOn boundary (places error member).2.2.1 (congrArg Position.key same)

/-- A token before the first keyword, the next keyword and the end of the source are the places of the
errors here, behind a comment with a character of two bytes. -/
theorem errors_placed_behind_comment :
    let source := "# é\nx toggle_all 5 create_group"
    ∃ program, read (fun _ => none) source = .ok program ∧
      program.errors.map ReadError.span = [⟨5, 6⟩, ⟨20, 32⟩, ⟨32, 32⟩] ∧
      (∀ error ∈ program.errors,
        error.span.start ≤ error.span.stop ∧ error.span.stop ≤ source.utf8ByteSize ∧
          IsBoundary source error.span.start ∧ IsBoundary source error.span.stop) ∧
      program.errors.Pairwise (fun one other => one.span.start < other.span.start) ∧
      StrictMonoOn (fun offset => (Position.ofOffset source offset).key)
        {offset | IsBoundary source offset} ∧
      ∀ error ∈ program.errors, ∀ offset, IsBoundary source offset →
        Position.ofOffset source offset = Position.ofOffset source error.span.start →
          offset = error.span.start := by
  intro source
  have lexed : lex source = .ok [⟨.name "x", ⟨5, 6⟩⟩, ⟨.keyword .toggleAll, ⟨7, 17⟩⟩,
      ⟨.integer "5", ⟨18, 19⟩⟩, ⟨.keyword .createGroup, ⟨20, 32⟩⟩] := by decide +kernel
  obtain ⟨program, isProgram, placed⟩ := errors_placed lexed fun _ => none
  have places : ((read (fun _ => none) source).map fun program =>
      program.errors.map ReadError.span) = .ok [⟨5, 6⟩, ⟨20, 32⟩, ⟨32, 32⟩] := by decide +kernel
  rw [isProgram] at places
  exact ⟨program, isProgram, Except.ok.inj places, placed⟩

end TimedCommands.Script
