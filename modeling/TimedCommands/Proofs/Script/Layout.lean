import TimedCommands.Proofs.Script.LongestLexeme
import TimedCommands.Proofs.Text.Slice

/-!
# Layout between tokens

Blanks and comments in front of a text do nothing but move it (`lexFrom_layout`), and the longest
lexeme there is yields its token and moves it too (`lexFrom_lexeme`). So a text is layout and lexemes
in turn, each lexeme the longest where it stands, up to its end or to the place where no pattern
begins (`Tiled`, `tiled_lexFrom`); and such tokens are what lexing finds (`Tiled.lexFrom_eq`).
-/

namespace TimedCommands.Script

open Computability

/-! Layout. -/

/-- A comment is a line from where comments start. -/
theorem mem_comment_iff {word : List Char} :
    word ∈ Pattern.comment ↔ startsComment word = true ∧ ∀ char ∈ word, char ≠ '\n' := by
  have rest {chars : List Char} :
      chars ∈ (Pattern.one (· ≠ '\n'))∗ ↔ ∀ char ∈ chars, char ≠ '\n' := by
    simp [Pattern.mem_kstar_one_iff]
  rw [Pattern.comment, Language.mem_mul]
  constructor
  · rintro ⟨_, rfl | rfl, body, isBody, rfl⟩
    · exact ⟨rfl, List.forall_mem_cons.mpr ⟨by decide, rest.mp isBody⟩⟩
    · exact ⟨rfl, List.forall_mem_cons.mpr
        ⟨by decide, List.forall_mem_cons.mpr ⟨by decide, rest.mp isBody⟩⟩⟩
  · rintro ⟨starts, noNewline⟩
    unfold startsComment at starts
    split at starts
    case h_1 body =>
      exact ⟨['#'], .inl rfl, body, rest.mpr (List.forall_mem_cons.mp noNewline).2, rfl⟩
    case h_2 body =>
      have noNewline := (List.forall_mem_cons.mp (List.forall_mem_cons.mp noNewline).2).2
      exact ⟨['/', '/'], .inr rfl, body, rest.mpr noNewline, rfl⟩
    case h_3 => cases starts

/-- Nothing is layout. -/
theorem nil_mem_layout : [] ∈ Pattern.layout := Language.nil_mem_kstar _

/-- Layout behind layout is layout. -/
theorem append_mem_layout {front back : List Char} (isFront : front ∈ Pattern.layout)
    (isBack : back ∈ Pattern.layout) : front ++ back ∈ Pattern.layout := by
  obtain ⟨parts, rfl, areParts⟩ := Language.mem_kstar.mp isFront
  obtain ⟨others, rfl, areOthers⟩ := Language.mem_kstar.mp isBack
  rw [← List.flatten_append]
  exact Language.join_mem_kstar (List.forall_mem_append.mpr ⟨areParts, areOthers⟩)

/-- A blank, and a comment with its newline, are layout. -/
theorem mem_layout_of_part {part : List Char}
    (isPart : part ∈ Pattern.one isBlank + Pattern.comment * Pattern.one (· = '\n')) :
    part ∈ Pattern.layout := by
  rw [← List.append_nil part]
  exact Pattern.append_mem_kstar isPart nil_mem_layout

/-- A blank is layout. -/
theorem blank_mem_layout {char : Char} (blank : isBlank char = true) : [char] ∈ Pattern.layout :=
  mem_layout_of_part (.inl ⟨char, blank, rfl⟩)

/-- A comment is layout, if its newline is taken with it. -/
theorem comment_mem_layout {comment : List Char} (isComment : comment ∈ Pattern.comment) :
    comment ++ ['\n'] ∈ Pattern.layout :=
  mem_layout_of_part (.inr (Language.append_mem_mul isComment ⟨'\n', rfl, rfl⟩))

/-- What begins a comment is no blank. -/
theorem not_isBlank_of_startsComment {first : Char} {rest : List Char}
    (starts : startsComment (first :: rest) = true) : isBlank first = false := by
  unfold startsComment at starts
  split at starts
  case h_1 isComment =>
    cases isComment
    rfl
  case h_2 isComment =>
    cases isComment
    rfl
  case h_3 => cases starts

/-- Where a comment starts is told by the characters at the front. -/
theorem startsComment_append {front : List Char} (starts : startsComment front = true)
    (next : List Char) : startsComment (front ++ next) = true := by
  unfold startsComment at starts
  split at starts
  case h_1 => rfl
  case h_2 => rfl
  case h_3 => cases starts

/-! What lexing makes of layout and of lexemes. -/

/-- A blank is passed over. -/
theorem lexFrom_blank {first : Char} (blank : isBlank first = true) (offset : Nat)
    (rest : List Char) : lexFrom offset (first :: rest) = lexFrom (offset + first.utf8Size) rest := by
  rw [lexFrom, if_pos blank]

/-- A comment is passed over, up to the newline or the end that ends it. -/
theorem lexFrom_comment {comment next : List Char} (isComment : comment ∈ Pattern.comment)
    (ends : next.head? = some '\n' ∨ next = []) (offset : Nat) :
    lexFrom offset (comment ++ next) = lexFrom (offset + Text.byteLength comment) next := by
  obtain ⟨starts, noNewline⟩ := mem_comment_iff.mp isComment
  obtain ⟨first, rest, rfl⟩ : ∃ first rest, comment = first :: rest := by
    cases comment with
    | nil => cases starts
    | cons first rest => exact ⟨first, rest, rfl⟩
  have ownLine : lineRest (rest ++ next) = rest := by
    refine takeWhile_append (fun char member => ?_) ?_
    · exact decide_eq_true (noNewline char (List.mem_cons_of_mem _ member))
    · rcases ends with isNewline | rfl
      · rw [isNewline]
        simp
      · nofun
  have noBlank : ¬ isBlank first = true := by simp [not_isBlank_of_startsComment starts]
  have startsAll : startsComment (first :: (rest ++ next)) = true := startsComment_append starts next
  rw [List.cons_append, lexFrom, if_neg noBlank, if_pos startsAll, ownLine, List.drop_left]

/-- Layout is passed over. -/
theorem lexFrom_layout {gap : List Char} (isLayout : gap ∈ Pattern.layout) (offset : Nat)
    (next : List Char) :
    lexFrom offset (gap ++ next) = lexFrom (offset + Text.byteLength gap) next := by
  obtain ⟨parts, rfl, areParts⟩ := Language.mem_kstar.mp isLayout
  clear isLayout
  induction parts generalizing offset with
  | nil => rfl
  | cons part parts ih =>
    rw [List.forall_mem_cons] at areParts
    rw [List.flatten_cons, List.append_assoc, Text.byteLength_append, ← Nat.add_assoc,
      ← ih _ areParts.2]
    rcases areParts.1 with ⟨blank, isBlank, rfl⟩ | ⟨comment, isComment, _, ⟨_, isNewline, rfl⟩, rfl⟩
    · exact lexFrom_blank isBlank offset _
    · obtain rfl := of_decide_eq_true isNewline
      rw [List.append_assoc, lexFrom_comment isComment (.inl rfl), List.singleton_append,
        lexFrom_blank rfl, Text.byteLength_append, Nat.add_assoc]
      rfl

/-- The longest lexeme at the front gives its token, and lexing goes on behind it. -/
theorem lexFrom_lexeme {lexeme : Lexeme} {next : List Char}
    (longest : lexeme.IsLongest (lexeme.chars ++ next)) (offset : Nat) :
    lexFrom offset (lexeme.chars ++ next) =
      (lexFrom (offset + Text.byteLength lexeme.chars) next).map
        (⟨lexeme.token, ⟨offset, offset + Text.byteLength lexeme.chars⟩⟩ :: ·) := by
  have front : frontLexeme lexeme.first (lexeme.rest ++ next) = .ok lexeme :=
    frontLexeme_eq_ok_iff.mpr longest
  obtain ⟨noBlank, noComment⟩ := begins_of_frontLexeme front
  rw [Lexeme.chars, List.cons_append, lexFrom, if_neg (by simp [noBlank]),
    if_neg (by simp [noComment]), front]
  dsimp only
  rw [List.drop_left]
  change _ = (lexFrom (offset + Text.byteLength lexeme.chars) next).map _
  cases lexFrom (offset + Text.byteLength lexeme.chars) next <;> rfl

/-- A comment at the end, and the end itself, have no further tokens. -/
theorem lexFrom_unended {rest : List Char} (unended : rest = [] ∨ rest ∈ Pattern.comment)
    (offset : Nat) : lexFrom offset rest = .ok [] := by
  rcases unended with rfl | isComment
  · rw [lexFrom]
  · rw [← List.append_nil rest, lexFrom_comment isComment (.inr rfl), lexFrom]

/-! What stands behind layout. -/

/-- A text that no blank begins, and no comment that is ended. -/
inductive Bare : List Char → Prop where
  | unended {rest : List Char} (unended : rest = [] ∨ rest ∈ Pattern.comment) : Bare rest
  | other (first : Char) (rest : List Char) (noBlank : isBlank first = false)
      (noComment : startsComment (first :: rest) = false) : Bare (first :: rest)

/-- The rest of a line is a comment, if one starts there. -/
theorem lineRest_mem_comment {first : Char} {rest : List Char}
    (starts : startsComment (first :: rest) = true) : first :: lineRest rest ∈ Pattern.comment := by
  have noNewline : first ≠ '\n' := by
    rintro rfl
    cases starts
  refine mem_comment_iff.mpr ⟨?_, List.forall_mem_cons.mpr ⟨noNewline, fun char member => ?_⟩⟩
  · unfold startsComment at starts
    split at starts
    case h_1 isComment =>
      cases isComment
      rfl
    case h_2 body isComment =>
      cases isComment
      have slash : lineRest ('/' :: body) = '/' :: lineRest body := List.takeWhile_cons_of_pos rfl
      rw [slash]
      rfl
    case h_3 => cases starts
  · exact of_decide_eq_true (List.all_eq_true.mp (List.all_takeWhile (l := rest)) char member)

/-- Layout can be told from the front of a text up to where none goes on. -/
theorem exists_layout (chars : List Char) :
    ∃ gap rest, gap ∈ Pattern.layout ∧ Bare rest ∧ chars = gap ++ rest := by
  match chars with
  | [] => exact ⟨[], [], nil_mem_layout, .unended (.inl rfl), rfl⟩
  | first :: rest =>
    by_cases blank : isBlank first = true
    · obtain ⟨gap, bare, isLayout, isBare, rfl⟩ := exists_layout rest
      exact ⟨[first] ++ gap, bare, append_mem_layout (blank_mem_layout blank) isLayout, isBare, rfl⟩
    by_cases starts : startsComment (first :: rest) = true
    · have isComment := lineRest_mem_comment starts
      have ends : lineRest rest ++ rest.dropWhile (· ≠ '\n') = rest := List.takeWhile_append_dropWhile
      cases isRest : rest.dropWhile (· ≠ '\n') with
      | nil =>
        rw [isRest, List.append_nil] at ends
        rw [ends] at isComment
        exact ⟨[], _, nil_mem_layout, .unended (.inr isComment), rfl⟩
      | cons newline more =>
        have isNewline : newline = '\n' := by
          have stops := List.head?_dropWhile_not (· ≠ '\n') rest
          rw [isRest] at stops
          simpa using stops
        rw [isRest] at ends
        have shorter : more.length < (first :: rest).length := by
          rw [← ends]
          simp
          omega
        obtain ⟨gap, bare, isLayout, isBare, isMore⟩ := exists_layout more
        refine ⟨(first :: lineRest rest ++ [newline]) ++ gap, bare,
          append_mem_layout (isNewline ▸ comment_mem_layout isComment) isLayout, isBare, ?_⟩
        rw [List.append_assoc, List.append_assoc, ← isMore, List.singleton_append, List.cons_append, ends]
    · exact ⟨[], _, nil_mem_layout, .other first rest (by simpa using blank) (by simpa using starts), rfl⟩
termination_by chars.length
decreasing_by
  · exact Nat.lt_succ_self _
  · exact shorter

/-! Texts with their tokens in place. -/

/-- Where no pattern begins. -/
structure Blocked (chars : List Char) : Prop where
  some : chars ≠ []
  noToken : ∀ (token : Token) word, word <+: chars → word ∉ token.pattern
  noBlank : ∀ word, word <+: chars → word ∉ Pattern.blanks
  noComment : ∀ word, word <+: chars → word ∉ Pattern.comment

/-- Where the lexer gives up, no token, blank or comment begins. -/
theorem blocked_of_error {first : Char} {rest slice : List Char}
    (front : frontLexeme first rest = .error slice) (noBlank : isBlank first = false)
    (noComment : startsComment (first :: rest) = false) : Blocked (first :: rest) where
  some := List.cons_ne_nil _ _
  noToken := not_begins_of_error front
  noBlank word isPrefix isBlanks := by
    obtain ⟨char, _, blank, -, rfl⟩ := Pattern.mem_one_mul_iff.mp isBlanks
    rw [(List.cons_prefix_cons.mp isPrefix).1, noBlank] at blank
    cases blank
  noComment word isPrefix isComment := by
    obtain ⟨next, isText⟩ := isPrefix
    have starts := startsComment_append (mem_comment_iff.mp isComment).1 next
    rw [isText, noComment] at starts
    cases starts

/-- A text that begins at an offset with its tokens in place: before each there is layout, and each is
the longest that begins where it stands. `rest` is what follows all of it. -/
inductive Tiled : (offset : Nat) → (chars : List Char) → List Located → (rest : List Char) → Prop where
  | stop (offset : Nat) (gap rest : List Char) (isLayout : gap ∈ Pattern.layout) :
      Tiled offset (gap ++ rest) [] rest
  | token (offset : Nat) (gap : List Char) (lexeme : Lexeme) (next rest : List Char)
      (tokens : List Located) (isLayout : gap ∈ Pattern.layout)
      (longest : lexeme.IsLongest (lexeme.chars ++ next))
      (tiled : Tiled (offset + Text.byteLength gap + Text.byteLength lexeme.chars) next tokens rest) :
      Tiled offset (gap ++ (lexeme.chars ++ next))
        (⟨lexeme.token, ⟨offset + Text.byteLength gap,
          offset + Text.byteLength gap + Text.byteLength lexeme.chars⟩⟩ :: tokens) rest

/-- Tokens in place are what lexing finds, up to a comment that is not ended. -/
theorem Tiled.lexFrom_eq {offset : Nat} {chars rest : List Char} {tokens : List Located}
    (tiled : Tiled offset chars tokens rest) (unended : rest = [] ∨ rest ∈ Pattern.comment) :
    lexFrom offset chars = .ok tokens := by
  induction tiled with
  | stop offset gap rest isLayout => rw [lexFrom_layout isLayout, lexFrom_unended unended]
  | token offset gap lexeme next rest tokens isLayout longest tiled ih =>
    rw [lexFrom_layout isLayout, lexFrom_lexeme longest, ih unended]
    rfl

/-- Lexing puts tokens in place up to the end of a text, or up to where it fails. -/
theorem tiled_lexFrom (offset : Nat) (chars : List Char) :
    match lexFrom offset chars with
    | .ok tokens => ∃ rest, Tiled offset chars tokens rest ∧ (rest = [] ∨ rest ∈ Pattern.comment)
    | .error error => ∃ tokens front rest, chars = front ++ rest ∧ Tiled offset chars tokens rest ∧
        error.span.start = offset + Text.byteLength front ∧ Blocked rest := by
  obtain ⟨gap, bare, isLayout, isBare, rfl⟩ := exists_layout chars
  rw [lexFrom_layout isLayout]
  cases isBare with
  | unended unended =>
    rw [lexFrom_unended unended]
    exact ⟨bare, .stop offset gap bare isLayout, unended⟩
  | other first rest noBlank noComment =>
    cases front : frontLexeme first rest with
    | error slice =>
      rw [lexFrom, if_neg (by simp [noBlank]), if_neg (by simp [noComment]), front]
      exact ⟨[], gap, _, rfl, .stop offset gap _ isLayout, rfl,
        blocked_of_error front noBlank noComment⟩
    | ok lexeme =>
      -- Lexing goes on behind the lexeme, in a shorter text.
      have longest := frontLexeme_eq_ok_iff.mp front
      obtain ⟨next, isText⟩ := longest.isPrefix
      have shorter : next.length < (gap ++ first :: rest).length := by
        rw [← isText]
        simp [Lexeme.chars]
        omega
      rw [← isText] at longest ⊢
      rw [lexFrom_lexeme longest]
      have tiled := tiled_lexFrom (offset + Text.byteLength gap + Text.byteLength lexeme.chars) next
      cases lexed : lexFrom (offset + Text.byteLength gap + Text.byteLength lexeme.chars) next with
      | ok tokens =>
        rw [lexed] at tiled
        obtain ⟨rest, tiled, unended⟩ := tiled
        exact ⟨rest, .token offset gap lexeme next rest tokens isLayout longest tiled, unended⟩
      | error error =>
        rw [lexed] at tiled
        obtain ⟨tokens, front, rest, rfl, tiled, place, blocked⟩ := tiled
        refine ⟨_, gap ++ lexeme.chars ++ front, rest, by simp,
          .token offset gap lexeme _ rest tokens isLayout longest tiled, ?_, blocked⟩
        rw [place]
        simp only [Text.byteLength_append]
        omega
termination_by chars.length

end TimedCommands.Script
