import TimedCommands.Proofs.Script.Spans
import TimedCommands.Proofs.Script.Tiling

/-!
# Layout does not matter

A lexeme stays the longest one where it stands if the text behind it is exchanged for one that goes
on in the same way at least as far as a word might go (`Lexeme.IsLongest.follows`). Layout ends every
word. So if some of the texts between the tokens of a source are exchanged for layout, the tokens stay
as they are (`Tiled.relaid`), and since places do not matter to reading, so do the directives and the
problems (`read_relaid`).
-/

namespace TimedCommands.Script

open Computability
open Text (slice)

/-! Lexemes and the text behind them. -/

/-- A character that a name, a keyword or a number literal may have in it. -/
def isWordChar (char : Char) : Bool := isIdentifierPart char || char ∈ ['.', '+', '-']

/-- A digit can go on a word. -/
theorem isWordChar_of_isDigit {char : Char} (isDigit : char.isDigit = true) :
    isWordChar char = true := by
  simp [isWordChar, isIdentifierPart, Char.isAlphanum, isDigit]

/-- A name consists of characters that can go on a word. -/
theorem within_name : Pattern.Within isWordChar Pattern.name := by
  refine (Pattern.Within.one fun char isStart => ?_).mul (Pattern.Within.one fun char isPart => ?_).kstar
  · rw [isIdentifierStart, Bool.or_eq_true] at isStart
    rcases isStart with isAlpha | isUnderscore <;>
      simp_all [isWordChar, isIdentifierPart, Char.isAlphanum]
  · rw [isWordChar, isPart, Bool.true_or]

/-- A literal consists of characters that can go on a word. -/
theorem within_literal : Pattern.Within isWordChar Pattern.literal := by
  have digit : Pattern.Within isWordChar (Pattern.one Char.isDigit) :=
    .one fun _ => isWordChar_of_isDigit
  have digits : Pattern.Within isWordChar Pattern.digits := digit.mul digit.kstar
  have fraction : Pattern.Within isWordChar Pattern.fraction := by
    refine (Pattern.Within.one fun char isPoint => ?_).mul digits
    obtain rfl := of_decide_eq_true isPoint
    rfl
  have exponent : Pattern.Within isWordChar Pattern.exponent := by
    refine (Pattern.Within.one fun char isLetter => ?_).mul
      ((Pattern.Within.one fun char isSign => ?_).optional.mul digits)
    · rcases of_decide_eq_true isLetter with rfl | rfl <;> rfl
    · rcases of_decide_eq_true isSign with rfl | rfl <;> rfl
  refine (Pattern.Within.one fun char isMinus => ?_).optional.mul
    (digits.mul (fraction.optional.mul exponent.optional))
  obtain rfl := of_decide_eq_true isMinus
  rfl

/-- A text that goes on like another one, at least up to where no word can go on. -/
inductive Follows : (text other : List Char) → Prop where
  | ends (text other : List Char) (ends : ∀ first ∈ other.head?, isWordChar first = false) :
      Follows text other
  | cons (char : Char) {text other : List Char} (follows : Follows text other) :
      Follows (char :: text) (char :: other)

namespace Follows

variable {text other : List Char}

/-- Texts that go on alike do so behind anything. -/
theorem append (own : List Char) (follows : Follows text other) :
    Follows (own ++ text) (own ++ other) := by
  induction own with
  | nil => exact follows
  | cons char own ih => exact .cons char ih

/-- A text goes on like itself. -/
theorem refl (text : List Char) : Follows text text := by
  have nothing : Follows (text ++ []) (text ++ []) := append text (.ends [] [] nofun)
  rwa [List.append_nil] at nothing

/-- What is in front of the one, as far as it is of word characters, is in front of the other. -/
theorem isPrefix (follows : Follows text other) {word : List Char}
    (areWord : ∀ char ∈ word, isWordChar char = true) (isPrefix : word <+: other) : word <+: text := by
  induction follows generalizing word with
  | ends text other ends =>
    cases word with
    | nil => exact List.nil_prefix
    | cons char word =>
      obtain ⟨next, rfl⟩ := isPrefix
      have noWord := ends char rfl
      rw [areWord char List.mem_cons_self] at noWord
      cases noWord
  | cons char follows ih =>
    cases word with
    | nil => exact List.nil_prefix
    | cons first word =>
      rw [List.forall_mem_cons] at areWord
      obtain ⟨rfl, isRest⟩ := List.cons_prefix_cons.mp isPrefix
      exact List.cons_prefix_cons.mpr ⟨rfl, ih areWord.2 isRest⟩

end Follows

/-- A token that begins with a quote is a text literal. -/
theorem mem_text_of_quote {token : Token} {rest : List Char} (fits : '"' :: rest ∈ token.pattern) :
    '"' :: rest ∈ Pattern.text := by
  rcases mem_pattern_cases fits with isWord | isLiteral | isText
  · exact absurd (begins_name _ isWord '"' rfl) (by decide)
  · exact absurd (begins_literal _ isLiteral '"' rfl) (by decide)
  · exact isText

/-- The longest lexeme stays the longest one if what follows goes on in the same way. A text literal
needs nothing to follow, since its last quote ends it. -/
theorem Lexeme.IsLongest.follows {lexeme : Lexeme} {text other : List Char}
    (longest : lexeme.IsLongest (lexeme.chars ++ text)) (follows : Follows text other) :
    lexeme.IsLongest (lexeme.chars ++ other) := by
  refine ⟨List.prefix_append _ _, longest.spelling, longest.fits, fun token word isPrefix fits => ?_,
    longest.keyword⟩
  have goesOn (areWord : ∀ char ∈ word, isWordChar char = true) : word <+: lexeme.chars :=
    longest.longest token word ((follows.append lexeme.chars).isPrefix areWord isPrefix) fits
  rcases mem_pattern_cases fits with isWord | isLiteral | isText
  · exact goesOn (within_name _ isWord)
  · exact goesOn (within_literal _ isLiteral)
  · have own := longest.fits
    have ownPrefix := List.prefix_append lexeme.chars other
    rw [Lexeme.chars, List.cons_append] at isPrefix
    rw [Lexeme.chars] at own ⊢
    rw [Lexeme.chars, List.cons_append] at ownPrefix
    by_cases isQuote : lexeme.first = '"'
    · rw [isQuote] at isPrefix own ownPrefix ⊢
      rw [((mem_text_iff isPrefix).mp isText).2,
        ((mem_text_iff ownPrefix).mp (mem_text_of_quote own)).2]
    · exact prefix_of_begins begins_text isText isPrefix (decide_eq_false isQuote)

/-- No word goes on into layout. -/
theorem ends_layout {gap : List Char} (isLayout : gap ∈ Pattern.layout) (some : gap ≠ [])
    (next : List Char) : ∀ first ∈ (gap ++ next).head?, isWordChar first = false := by
  rw [Pattern.layout, Pattern.mem_kstar_cons_iff] at isLayout
  obtain ⟨part, isPart, others, -, rfl⟩ := Language.mem_mul.mp (isLayout.resolve_left some)
  rcases isPart with ⟨blank, isBlank, rfl⟩ | ⟨comment, isComment, _, -, rfl⟩
  · rintro _ ⟨⟩
    simp only [Script.isBlank, Bool.or_eq_true, decide_eq_true_eq] at isBlank
    rcases isBlank with (((rfl | rfl) | rfl) | rfl) | rfl <;> rfl
  · have starts := (mem_comment_iff.mp isComment).1
    unfold startsComment at starts
    split at starts
    case h_1 | h_2 =>
      rintro _ ⟨⟩
      rfl
    case h_3 => cases starts

/-! Sources with other layout. -/

/-- A text that stands between tokens and may be exchanged for another: the one that stood there, or
layout, which is not empty. -/
def Relaid (source : String) (gap : Span) (text : List Char) : Prop :=
  text = slice source gap ∨ text ∈ Pattern.layout ∧ text ≠ []

/-- Tokens in place are the same in place if the texts between them are exchanged. -/
theorem Tiled.relaid {source : String} {offset : Nat} {before chars rest : List Char}
    {tokens : List Located} (tiled : Tiled offset chars tokens rest)
    (isSource : source.toList = before ++ chars) (isOffset : offset = Text.byteLength before)
    (unended : rest = [] ∨ rest ∈ Pattern.comment) {texts : List (List Char)}
    (relaid : List.Forall₂ (Relaid source) (gaps offset source.utf8ByteSize tokens) texts)
    (newOffset : Nat) :
    let newChars := weave texts (tokens.map fun located => slice source located.span)
    Follows chars newChars ∧ ∃ newTokens newRest,
      Tiled newOffset newChars newTokens newRest ∧ (newRest = [] ∨ newRest ∈ Pattern.comment) ∧
        newTokens.map Located.token = tokens.map Located.token := by
  -- By induction on the tokens. What is carried along is how the new text follows on from each
  -- place: by that alone a lexeme is the longest one in front of it.
  induction tiled generalizing before texts newOffset with
  | stop offset gap rest isLayout =>
    subst isOffset
    obtain ⟨text, isText, rfl⟩ : ∃ text,
        Relaid source ⟨Text.byteLength before, source.utf8ByteSize⟩ text ∧ texts = [text] := by
      simpa [gaps, List.forall₂_cons_left_iff] using relaid
    have isSlice : slice source ⟨Text.byteLength before, source.utf8ByteSize⟩ = gap ++ rest := by
      rw [← Text.byteLength_toList, isSource]
      exact Text.slice_append [] (by simp [isSource])
    rw [List.map_nil, weave, List.flatten_singleton]
    rcases isText with isSame | ⟨isNew, some⟩
    · rw [isSame, isSlice]
      exact ⟨.refl _, [], rest, .stop newOffset gap rest isLayout, unended, rfl⟩
    · rw [← List.append_nil text]
      exact ⟨.ends _ _ (ends_layout isNew some []), [], [], .stop newOffset text [] isNew, .inl rfl, rfl⟩
  | token offset gap lexeme next rest tokens isLayout longest tiled ih =>
    subst isOffset
    obtain ⟨text, texts, isText, areTexts, rfl⟩ : ∃ text others,
        Relaid source ⟨Text.byteLength before, Text.byteLength before + Text.byteLength gap⟩ text ∧
        List.Forall₂ (Relaid source) (gaps (Text.byteLength before + Text.byteLength gap +
          Text.byteLength lexeme.chars) source.utf8ByteSize tokens) others ∧
        texts = text :: others := by
      simpa only [gaps, List.forall₂_cons_left_iff, exists_and_left] using relaid
    rw [← Text.byteLength_append] at isText areTexts ih ⊢
    rw [← Text.byteLength_append] at areTexts ih ⊢
    have gapSlice : slice source ⟨Text.byteLength before, Text.byteLength (before ++ gap)⟩ = gap :=
      Text.slice_append (lexeme.chars ++ next) (by simp [isSource])
    have ownSlice : slice source
        ⟨Text.byteLength (before ++ gap), Text.byteLength (before ++ gap ++ lexeme.chars)⟩ =
          lexeme.chars :=
      Text.slice_append next (by simp [isSource])
    have isNext : source.toList = before ++ gap ++ lexeme.chars ++ next := by simp [isSource]
    obtain ⟨follows, newTokens, newRest, newTiled, newUnended, same⟩ :=
      ih isNext rfl unended areTexts
        (newOffset + Text.byteLength text + Text.byteLength lexeme.chars)
    simp only [List.map_cons, weave, ownSlice]
    have newLongest := longest.follows follows
    have newLayout : text ∈ Pattern.layout ∧ Follows (gap ++ (lexeme.chars ++ next))
        (text ++ (lexeme.chars ++ weave texts (tokens.map fun located => slice source located.span))) := by
      rcases isText with isSame | ⟨isNew, some⟩
      · rw [isSame, gapSlice]
        exact ⟨isLayout, (follows.append lexeme.chars).append gap⟩
      · exact ⟨isNew, .ends _ _ (ends_layout isNew some _)⟩
    exact ⟨newLayout.2, _, newRest, .token newOffset text lexeme _ newRest newTokens newLayout.1 newLongest
      newTiled, newUnended, by rw [List.map_cons, same]⟩

/-- The same tokens at any places are alike, if places do not matter. -/
theorem alike_of_tokens {tokens others : List Located}
    (same : others.map Located.token = tokens.map Located.token) :
    List.Forall₂ (Alike fun _ _ => True) tokens others := by
  have equal : List.Forall₂ Eq (tokens.map Located.token) (others.map Located.token) :=
    List.forall₂_eq_eq_eq.symm ▸ same.symm
  rw [List.forall₂_map_left_iff, List.forall₂_map_right_iff] at equal
  exact equal.imp fun _ _ token => ⟨token, trivial⟩

/-- Alike outcomes are of the same directives and the same problems. -/
theorem program_of_alike {places : Span → Span → Prop}
    {outcomes others : List (Except ReadError Directive)}
    (alike : List.Forall₂ (AlikeOutcomes places) outcomes others) :
    (Program.ofOutcomes others).directives = (Program.ofOutcomes outcomes).directives ∧
      (Program.ofOutcomes others).errors.map ReadError.problem =
        (Program.ofOutcomes outcomes).errors.map ReadError.problem := by
  induction alike with
  | nil => exact ⟨rfl, rfl⟩
  | cons first _ ih =>
    cases first with
    | ok directive => exact ⟨congrArg (directive :: ·) ih.1, ih.2⟩
    | error problem place => exact ⟨ih.1, congrArg (problem :: ·) ih.2⟩

/-- If texts between, before and behind the tokens of a source are exchanged for layout that is not
empty, the tokens are the same, and so are the directives that are read and the problems that are
found, whatever the command types. -/
theorem read_relaid {source : String} {tokens : List Located} (lexed : lex source = .ok tokens)
    {texts : List (List Char)}
    (relaid : List.Forall₂ (Relaid source) (gaps 0 source.utf8ByteSize tokens) texts) :
    let newSource := String.ofList (weave texts (tokens.map fun located => slice source located.span))
    (∃ newTokens, lex newSource = .ok newTokens ∧
      newTokens.map Located.token = tokens.map Located.token) ∧
    ∀ arity, ∃ program newProgram,
      read arity source = .ok program ∧ read arity newSource = .ok newProgram ∧
        newProgram.directives = program.directives ∧
        newProgram.errors.map ReadError.problem = program.errors.map ReadError.problem := by
  intro newSource
  have tiled := tiled_lexFrom 0 source.toList
  rw [lex] at lexed
  rw [lexed] at tiled
  obtain ⟨rest, tiled, unended⟩ := tiled
  obtain ⟨-, newTokens, newRest, newTiled, newUnended, same⟩ :=
    tiled.relaid (List.nil_append _).symm rfl unended relaid 0
  have newLexed : lex newSource = .ok newTokens := by
    rw [lex, String.toList_ofList]
    exact newTiled.lexFrom_eq newUnended
  refine ⟨⟨newTokens, newLexed, same⟩, fun arity => ?_⟩
  refine ⟨readTokens arity source.utf8ByteSize tokens, readTokens arity newSource.utf8ByteSize newTokens,
    ?_, ?_, ?_⟩
  · rw [read, lex, lexed]
  · rw [read, newLexed]
  · rw [readTokens_eq_outcomes, readTokens_eq_outcomes]
    exact program_of_alike (alike_outcomes arity trivial (alike_of_tokens same))

/-- Layout may be put where two tokens touch: here a comment stands between a number and a name. -/
theorem read_relaid_touching :
    let source := "toggle_all 5g"
    let tokens : List Located :=
      [⟨.keyword .toggleAll, ⟨0, 10⟩⟩, ⟨.integer "5", ⟨11, 12⟩⟩, ⟨.name "g", ⟨12, 13⟩⟩]
    let texts := [[], ['\t'], ['#', '\n'], ['\n']]
    lex source = .ok tokens ∧
      List.Forall₂ (Relaid source) (gaps 0 source.utf8ByteSize tokens) texts ∧
      String.ofList (weave texts (tokens.map fun located => slice source located.span)) =
        "toggle_all\t5#\ng\n" ∧
      (∃ newTokens, lex "toggle_all\t5#\ng\n" = .ok newTokens ∧
        newTokens.map Located.token = tokens.map Located.token) ∧
      ∀ arity, ∃ program newProgram,
        read arity source = .ok program ∧ read arity "toggle_all\t5#\ng\n" = .ok newProgram ∧
          newProgram.directives = program.directives ∧
          newProgram.errors.map ReadError.problem = program.errors.map ReadError.problem := by
  intro source tokens texts
  have lexed : lex source = .ok tokens := by decide +kernel
  have relaid : List.Forall₂ (Relaid source) (gaps 0 source.utf8ByteSize tokens) texts := by
    have isComment : ['#'] ∈ Pattern.comment := mem_comment_iff.mpr ⟨rfl, by simp⟩
    refine .cons (.inl ?_) (.cons (.inr ⟨blank_mem_layout rfl, List.cons_ne_nil _ _⟩)
      (.cons (.inr ⟨comment_mem_layout isComment, List.cons_ne_nil _ _⟩)
        (.cons (.inr ⟨blank_mem_layout rfl, List.cons_ne_nil _ _⟩) .nil)))
    decide +kernel
  have newSource : String.ofList (weave texts (tokens.map fun located => slice source located.span)) =
      "toggle_all\t5#\ng\n" := by decide +kernel
  have same := read_relaid lexed relaid
  dsimp only at same
  rw [newSource] at same
  exact ⟨lexed, relaid, newSource, same⟩

end TimedCommands.Script
