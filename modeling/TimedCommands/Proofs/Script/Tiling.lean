import TimedCommands.Proofs.Script.Layout

/-!
# Tokens tile a source

The spans of the tokens of a source follow one another, and what stands between them is layout; put
together, the slices of both are the source (`Tiling`). That holds of the whole source if it has
tokens, with a comment at its end if need be, and otherwise up to the place of the error, where no
token, blank or comment begins (`lex_tiles`).
-/

namespace TimedCommands.Script

open Text (slice IsBoundary)

/-- The spans before, between and behind tokens. -/
def gaps (start stop : Nat) : List Located → List Span
  | [] => [⟨start, stop⟩]
  | located :: rest => ⟨start, located.span.start⟩ :: gaps located.span.stop stop rest

/-- Texts put together in turns. -/
def weave : (gaps words : List (List Char)) → List Char
  | gap :: gaps, word :: words => gap ++ (word ++ weave gaps words)
  | gaps, [] => gaps.flatten
  | [], words => words.flatten

/-- The tokens of a source between two offsets, and all there is besides them is layout. A comment
without a newline can only be the last of it. -/
structure Tiling (source : String) (start stop : Nat) (tokens : List Located) : Prop where
  nonempty : ∀ located ∈ tokens, located.span.start < located.span.stop
  inside : ∀ located ∈ tokens, start ≤ located.span.start ∧ located.span.stop ≤ stop
  boundary : ∀ located ∈ tokens,
    IsBoundary source located.span.start ∧ IsBoundary source located.span.stop
  ordered : tokens.Pairwise fun one other => one.span.stop ≤ other.span.start
  spelled : ∀ located ∈ tokens, slice source located.span = located.token.spelling ∧
    slice source located.span ∈ located.token.pattern
  filled : ∀ gap ∈ gaps start stop tokens, slice source gap ∈ Pattern.layout ∨
    gap.stop = source.utf8ByteSize ∧ slice source gap ∈ Pattern.layout * Pattern.comment
  complete : weave ((gaps start stop tokens).map (slice source))
    (tokens.map fun located => slice source located.span) = slice source ⟨start, stop⟩

/-- Layout without tokens, and perhaps a last comment. -/
theorem tiling_nil {source : String} {before gap last beyond : List Char}
    (isSource : source.toList = before ++ (gap ++ last) ++ beyond) (isLayout : gap ∈ Pattern.layout)
    (isLast : last = [] ∨ last ∈ Pattern.comment ∧ beyond = []) :
    Tiling source (Text.byteLength before) (Text.byteLength (before ++ (gap ++ last))) [] := by
  have sliced := Text.slice_append beyond isSource
  refine ⟨nofun, nofun, nofun, .nil, nofun, ?_, by simp [gaps, weave]⟩
  rw [gaps, List.forall_mem_singleton, sliced]
  rcases isLast with rfl | ⟨isComment, rfl⟩
  · exact .inl (by rwa [List.append_nil])
  · refine .inr ⟨?_, Language.append_mem_mul isLayout isComment⟩
    rw [← Text.byteLength_toList, isSource, List.append_nil]

/-- One more token in front of others, with layout before it. -/
theorem tiling_cons {source : String} {before gap own front next : List Char} {token : Token}
    {tokens : List Located} (isSource : source.toList = before ++ gap ++ own ++ front ++ next)
    (isLayout : gap ∈ Pattern.layout) (some : own ≠ []) (spelled : own = token.spelling)
    (fits : own ∈ token.pattern)
    (tiling : Tiling source (Text.byteLength (before ++ gap ++ own))
      (Text.byteLength (before ++ gap ++ own ++ front)) tokens) :
    Tiling source (Text.byteLength before) (Text.byteLength (before ++ gap ++ own ++ front))
      (⟨token, ⟨Text.byteLength (before ++ gap), Text.byteLength (before ++ gap ++ own)⟩⟩ :: tokens) := by
  -- What the spans of the layout, of the token and of the rest cut out of the source.
  have gapSlice : slice source ⟨Text.byteLength before, Text.byteLength (before ++ gap)⟩ = gap :=
    Text.slice_append (own ++ front ++ next) (by simp [isSource])
  have ownSlice : slice source
      ⟨Text.byteLength (before ++ gap), Text.byteLength (before ++ gap ++ own)⟩ = own :=
    Text.slice_append (front ++ next) (by simp [isSource])
  have frontSlice : slice source
      ⟨Text.byteLength (before ++ gap ++ own), Text.byteLength (before ++ gap ++ own ++ front)⟩ = front :=
    Text.slice_append next isSource
  have wholeSlice : slice source
      ⟨Text.byteLength before, Text.byteLength (before ++ (gap ++ (own ++ front)))⟩ = gap ++ (own ++ front) :=
    Text.slice_append next (by simp [isSource])
  have length : 0 < Text.byteLength own := by
    obtain ⟨char, rest, rfl⟩ := List.exists_cons_of_ne_nil some
    exact Text.byteLength_cons_pos char rest
  have lengths : Text.byteLength before ≤ Text.byteLength (before ++ gap) ∧
      Text.byteLength (before ++ gap) < Text.byteLength (before ++ gap ++ own) ∧
      Text.byteLength (before ++ gap ++ own) ≤ Text.byteLength (before ++ gap ++ own ++ front) := by
    simp only [Text.byteLength_append]
    omega
  refine ⟨?_, ?_, ?_, ?_, ?_, ?_, ?_⟩
  · exact List.forall_mem_cons.mpr ⟨lengths.2.1, tiling.nonempty⟩
  · refine List.forall_mem_cons.mpr ⟨⟨lengths.1, lengths.2.2⟩, fun located member => ?_⟩
    have inside := tiling.inside located member
    exact ⟨by omega, inside.2⟩
  · refine List.forall_mem_cons.mpr ⟨⟨?_, ?_⟩, tiling.boundary⟩
    · exact Text.isBoundary_append (own ++ front ++ next) (by simp [isSource])
    · exact Text.isBoundary_append (front ++ next) (by simp [isSource])
  · exact List.pairwise_cons.mpr ⟨fun located member => (tiling.inside located member).1, tiling.ordered⟩
  · refine List.forall_mem_cons.mpr ⟨?_, tiling.spelled⟩
    rw [ownSlice]
    exact ⟨spelled, fits⟩
  · refine List.forall_mem_cons.mpr ⟨.inl ?_, tiling.filled⟩
    rw [gapSlice]
    exact isLayout
  · rw [gaps, List.map_cons, List.map_cons, weave, tiling.complete, gapSlice, ownSlice, frontSlice,
      ← wholeSlice]
    simp only [List.append_assoc]

/-- Tokens in place in a part of a source tile it, and so does a comment at its end. -/
theorem Tiled.tiling {source : String} {offset : Nat} {before chars rest last beyond : List Char}
    {tokens : List Located} (tiled : Tiled offset chars tokens rest)
    (isSource : source.toList = before ++ chars) (isOffset : offset = Text.byteLength before)
    (isRest : rest = last ++ beyond) (isLast : last = [] ∨ last ∈ Pattern.comment ∧ beyond = []) :
    ∃ front, source.toList = before ++ front ++ beyond ∧
      Tiling source offset (Text.byteLength (before ++ front)) tokens := by
  induction tiled generalizing before with
  | stop offset gap rest isLayout =>
    subst isOffset isRest
    have isSource : source.toList = before ++ (gap ++ last) ++ beyond := by simp [isSource]
    exact ⟨gap ++ last, isSource, tiling_nil isSource isLayout isLast⟩
  | token offset gap lexeme next rest tokens isLayout longest tiled ih =>
    subst isOffset
    have lengths : Text.byteLength before + Text.byteLength gap + Text.byteLength lexeme.chars =
        Text.byteLength (before ++ gap ++ lexeme.chars) := by
      simp only [Text.byteLength_append]
    have isNext : source.toList = before ++ gap ++ lexeme.chars ++ next := by simp [isSource]
    obtain ⟨front, isSource, tiling⟩ := ih isNext lengths isRest
    rw [lengths, ← Text.byteLength_append] at *
    refine ⟨gap ++ (lexeme.chars ++ front), by simp [isSource], ?_⟩
    have tiling := tiling_cons isSource isLayout (List.cons_ne_nil _ _) longest.spelling.symm
      longest.fits tiling
    simpa only [List.append_assoc] using tiling

/-- A source is tiled by its tokens and the layout around them, or up to the place of a lexical error,
where no token, blank or comment begins. -/
theorem lex_tiles (source : String) :
    match lex source with
    | .ok tokens => Tiling source 0 source.utf8ByteSize tokens
    | .error error =>
      IsBoundary source error.span.start ∧
        (∃ tokens, Tiling source 0 error.span.start tokens) ∧
        Blocked (slice source ⟨error.span.start, source.utf8ByteSize⟩) := by
  have tiled := tiled_lexFrom 0 source.toList
  rw [lex]
  cases lexed : lexFrom 0 source.toList with
  | ok tokens =>
    rw [lexed] at tiled
    obtain ⟨rest, tiled, unended⟩ := tiled
    obtain ⟨front, isSource, tiling⟩ := tiled.tiling (List.nil_append _).symm rfl
      (List.append_nil rest).symm (unended.imp_right fun isComment => ⟨isComment, rfl⟩)
    rw [List.append_nil] at isSource
    rwa [← isSource, Text.byteLength_toList] at tiling
  | error error =>
    rw [lexed] at tiled
    obtain ⟨tokens, front, rest, isText, tiled, place, blocked⟩ := tiled
    obtain ⟨tiles, isSource, tiling⟩ :=
      tiled.tiling (List.nil_append _).symm rfl (List.nil_append rest).symm (.inl rfl)
    obtain rfl : tiles = front := List.append_cancel_right (isSource.symm.trans isText)
    have isRest : slice source ⟨Text.byteLength tiles, Text.byteLength (tiles ++ rest)⟩ = rest :=
      Text.slice_append [] (by simp [isText])
    rw [← isText, Text.byteLength_toList] at isRest
    rw [Nat.zero_add] at place
    dsimp only
    rw [place, isRest]
    exact ⟨Text.isBoundary_append rest isText, ⟨tokens, tiling⟩, blocked⟩

end TimedCommands.Script
