import TimedCommands.Proofs.Number.Numeral
import TimedCommands.Script.Lexeme

/-!
# Words of a script

A word that stands apart from what follows it is one token, whatever that is: the lexeme at its
front ends where the word ends (`Spells`). Words separated by blanks are therefore their tokens
in order (`tokens_joined`), and if they have tokens at all, each of them is one
(`spelled_of_tokens`). Names, keywords, number literals and closed text literals are such words.
-/

namespace TimedCommands.Script

/-- The tokens of a text, without their places, if it is one that has tokens. -/
def tokens? (chars : List Char) : Option (List Token) :=
  (lexFrom 0 chars).toOption.map (List.map Located.token)

/-- Nothing, or a blank first. -/
def Apart (next : List Char) : Prop := ∀ first ∈ next.head?, isBlank first = true

/-- A word that is one token, whatever stands apart from it. -/
inductive Spells : List Char → Token → Prop where
  | word (first : Char) (rest : List Char) (token : Token)
      (isFront : ∀ next, Apart next → frontLexeme first (rest ++ next) = .ok ⟨token, first, rest⟩) :
      Spells (first :: rest) token

/-! Tokens do not depend on the place at which the text begins. -/

/-- Which tokens a text has does not depend on the offset at which it begins. -/
theorem tokens_offset (offset other : Nat) (chars : List Char) :
    (lexFrom offset chars).toOption.map (List.map Located.token) =
      (lexFrom other chars).toOption.map (List.map Located.token) := by
  fun_induction lexFrom offset chars generalizing other with
  | case1 => rw [lexFrom]
  | case2 offset first rest blank ih =>
    rw [lexFrom, if_pos blank]
    exact ih _
  | case3 offset first rest noBlank comment start ih =>
    rw [lexFrom, if_neg noBlank, if_pos comment]
    exact ih _
  | case4 offset first rest noBlank noComment slice front =>
    rw [lexFrom, if_neg noBlank, if_neg noComment]
    simp [front, Except.toOption]
  | case5 offset first rest noBlank noComment lexeme front stop error failed ih =>
    have later := ih (other + Text.byteLength lexeme.chars)
    rw [lexFrom, if_neg noBlank, if_neg noComment]
    cases isLater : lexFrom (other + Text.byteLength lexeme.chars) (rest.drop lexeme.rest.length) <;>
      simp_all [Except.toOption]
  | case6 offset first rest noBlank noComment lexeme front stop tokens isTokens ih =>
    have later := ih (other + Text.byteLength lexeme.chars)
    rw [lexFrom, if_neg noBlank, if_neg noComment]
    cases isLater : lexFrom (other + Text.byteLength lexeme.chars) (rest.drop lexeme.rest.length) <;>
      simp_all [Except.toOption]

/-- Lexed from any offset, a text has the tokens that it has on its own. -/
theorem tokens_lexFrom (offset : Nat) (chars : List Char) :
    (lexFrom offset chars).toOption.map (List.map Located.token) = tokens? chars :=
  tokens_offset offset 0 chars

/-- The tokens of a source, if it has any, are those of its characters. -/
theorem lex_eq_ok_iff {source : String} {tokens : List Token} :
    (∃ located, lex source = .ok located ∧ located.map Located.token = tokens) ↔
      tokens? source.toList = some tokens := by
  rw [tokens?, lex]
  cases lexFrom 0 source.toList <;> simp [Except.toOption]

/-- The empty text has no tokens. -/
theorem tokens_nil : tokens? [] = some [] := by
  rw [tokens?, lexFrom]
  rfl

/-- A blank in front of a text adds no token. -/
theorem tokens_blank {first : Char} (blank : isBlank first = true) (rest : List Char) :
    tokens? (first :: rest) = tokens? rest := by
  rw [tokens?, lexFrom, if_pos blank, tokens_lexFrom]

/-- The blanks are the space, the tab, the line breaks and the form feed. -/
theorem blank_cases {char : Char} (blank : isBlank char = true) :
    char ∈ [' ', '\t', '\r', '\n', '\x0c'] := by
  simpa [isBlank, or_assoc] using blank

/-- A character that begins a lexeme is no blank and begins no comment. -/
theorem begins_of_frontLexeme {first : Char} {rest : List Char} {lexeme : Lexeme}
    (front : frontLexeme first rest = .ok lexeme) :
    isBlank first = false ∧ startsComment (first :: rest) = false := by
  have noOther : first ∉ [' ', '\t', '\r', '\n', '\x0c', '#', '/'] := by
    intro other
    simp only [List.mem_cons, List.not_mem_nil, or_false] at other
    rcases other with rfl | rfl | rfl | rfl | rfl | rfl | rfl <;> cases front
  simp only [List.mem_cons, List.not_mem_nil, or_false, not_or] at noOther
  refine ⟨by simp [isBlank, noOther], ?_⟩
  unfold startsComment
  split <;> simp_all

/-- The tokens of a text are that of its front lexeme and those of what is behind it. -/
theorem tokens_lexeme {first : Char} {rest : List Char} {lexeme : Lexeme}
    (front : frontLexeme first rest = .ok lexeme) :
    tokens? (first :: rest) =
      (tokens? (rest.drop lexeme.rest.length)).map (lexeme.token :: ·) := by
  obtain ⟨noBlank, noComment⟩ := begins_of_frontLexeme front
  have later := tokens_lexFrom (0 + Text.byteLength lexeme.chars) (rest.drop lexeme.rest.length)
  rw [tokens?, lexFrom, if_neg (by simp [noBlank]), if_neg (by simp [noComment]), ← later, front]
  dsimp only
  cases lexFrom (0 + Text.byteLength lexeme.chars) (rest.drop lexeme.rest.length) <;> rfl

/-- A text that begins with no lexeme, blank or comment has no tokens at all. -/
theorem tokens_error {first : Char} {rest slice : List Char} (noBlank : isBlank first = false)
    (noComment : startsComment (first :: rest) = false)
    (front : frontLexeme first rest = .error slice) : tokens? (first :: rest) = none := by
  rw [tokens?, lexFrom, if_neg (by simp [noBlank]), if_neg (by simp [noComment]), front]
  rfl

/-- A word that spells a token adds that token, if what follows stands apart. -/
theorem tokens_spells {chars next : List Char} {token : Token} (spells : Spells chars token)
    (apart : Apart next) : tokens? (chars ++ next) = (tokens? next).map (token :: ·) := by
  obtain ⟨first, rest, token, isFront⟩ := spells
  rw [List.cons_append, tokens_lexeme (isFront next apart), List.drop_left]

/-! Words and blanks. -/

/-- At the end of a text, any word stands apart. -/
theorem Apart.nil : Apart [] := nofun

/-- Anything stands apart behind a blank. -/
theorem Apart.blank {first : Char} (blank : isBlank first = true) (rest : List Char) :
    Apart (first :: rest) := by
  intro other isOther
  cases isOther
  exact blank

/-- What stands apart from a word continues none. -/
theorem Apart.stops {next : List Char} (apart : Apart next) :
    ∀ first ∈ next.head?, isIdentifierPart first = false ∧ first.isDigit = false ∧
      first ∉ ['.', 'e', 'E'] := by
  intro first isFirst
  have blank := blank_cases (apart first isFirst)
  simp only [List.mem_cons, List.not_mem_nil, or_false] at blank
  rcases blank with rfl | rfl | rfl | rfl | rfl <;> decide

/-- A source that is one word has one token. -/
theorem lex_of_spells {source : String} {token : Token} (spells : Spells source.toList token) :
    ∃ span, lex source = .ok [⟨token, span⟩] := by
  have isTokens : tokens? source.toList = some [token] := by
    have spelled := tokens_spells spells .nil
    rwa [List.append_nil, tokens_nil] at spelled
  obtain ⟨located, lexed, isToken⟩ := lex_eq_ok_iff.mpr isTokens
  obtain ⟨⟨found, span⟩, rfl, same⟩ := List.map_eq_singleton_iff.mp isToken
  obtain rfl : found = token := same
  exact ⟨span, lexed⟩

/-- What belongs to a word is taken up to where the word stops. -/
theorem takeWhile_append {part : Char → Bool} {own next : List Char}
    (areParts : ∀ char ∈ own, part char = true) (stops : ∀ first ∈ next.head?, part first = false) :
    (own ++ next).takeWhile part = own := by
  rw [List.takeWhile_append_of_pos areParts]
  cases next with
  | nil => simp
  | cons first rest => simp [stops first rfl]

/-- An identifier is one word. -/
theorem spells_identifier {word : List Char} (isWord : isIdentifierChars word = true) :
    Spells word (wordToken (String.ofList word)) := by
  cases word with
  | nil => cases isWord
  | cons first rest =>
    rw [isIdentifierChars, Bool.and_eq_true, List.all_eq_true] at isWord
    refine .word first rest _ fun next apart => ?_
    have parts : (rest ++ next).takeWhile isIdentifierPart = rest :=
      takeWhile_append isWord.2 fun char isFirst => (apart.stops char isFirst).1
    simp only [frontLexeme, if_pos isWord.1, parts]

/-! Number literals. -/

section Numeral

variable (numeral : Numeral) {next : List Char} (apart : Apart next)

include apart

/-- Behind the fraction of a numeral comes neither a digit nor a further point. -/
theorem head_powerChars_append : ∀ first ∈ (numeral.powerChars ++ next).head?,
    first.isDigit = false ∧ first ≠ '.' := by
  intro first isFirst
  rw [Numeral.powerChars] at isFirst
  split at isFirst
  · have stops := apart.stops first isFirst
    simp only [List.mem_cons, not_or] at stops
    exact ⟨stops.2.1, stops.2.2.1⟩
  · cases isFirst
    decide

/-- The fraction of a numeral is scanned up to its power. -/
theorem fractionLexeme_chars :
    fractionLexeme (numeral.fractionChars ++ (numeral.powerChars ++ next)) =
      numeral.fractionChars := by
  have stops := head_powerChars_append numeral apart
  rw [Numeral.fractionChars]
  split
  case isTrue noFraction =>
    rw [List.nil_append]
    unfold fractionLexeme
    split
    case h_1 rest point => exact absurd rfl (stops '.' (by rw [point]; rfl)).2
    case h_2 => rfl
  case isFalse someFraction =>
    have digits : (numeral.fraction ++ (numeral.powerChars ++ next)).takeWhile Char.isDigit =
        numeral.fraction :=
      takeWhile_append numeral.fraction_digits fun first isFirst => (stops first isFirst).1
    simp [fractionLexeme, digits, someFraction]

omit apart in
/-- The sign of a power is scanned as such. -/
theorem exponentSign_chars (somePower : numeral.power ≠ []) (next : List Char) :
    exponentSign (numeral.powerSign ++ (numeral.power ++ next)) = numeral.powerSign := by
  obtain ⟨digit, digits, power⟩ := List.exists_cons_of_ne_nil somePower
  have isDigit : digit.isDigit = true := numeral.power_digits digit (power ▸ List.mem_cons_self)
  rw [Numeral.powerSign, power]
  split
  case isTrue => rfl
  case isFalse =>
    rw [List.nil_append, List.cons_append]
    unfold exponentSign
    split
    case h_1 isSign =>
      cases isSign
      exact absurd isDigit (by decide)
    case h_2 isSign =>
      cases isSign
      exact absurd isDigit (by decide)
    case h_3 => rfl

/-- The power of a numeral is scanned up to what stands apart from it. -/
theorem exponentLexeme_chars :
    exponentLexeme (numeral.powerChars ++ next) = numeral.powerChars := by
  rw [Numeral.powerChars]
  split
  case isTrue noPower =>
    cases next with
    | nil => rfl
    | cons first rest =>
      have stops := (apart.stops first rfl).2.2
      simp only [List.mem_cons, not_or] at stops
      simp [exponentLexeme, stops.2.1, stops.2.2.1]
  case isFalse somePower =>
    have digits : (numeral.power ++ next).takeWhile Char.isDigit = numeral.power :=
      takeWhile_append numeral.power_digits fun first isFirst => (apart.stops first isFirst).2.1
    have sign := exponentSign_chars numeral somePower next
    simp [exponentLexeme, sign, digits, somePower]

/-- The digits before the point end where the numeral's do. -/
theorem wholeDigits_chars {digits : List Char} (areDigits : ∀ char ∈ digits, char.isDigit = true) :
    (digits ++ (numeral.fractionChars ++ (numeral.powerChars ++ next))).takeWhile Char.isDigit =
      digits := by
  refine takeWhile_append areDigits fun first isFirst => ?_
  rw [Numeral.fractionChars] at isFirst
  split at isFirst
  · exact (head_powerChars_append numeral apart first isFirst).1
  · cases isFirst
    decide

/-- The rest of a number literal behind its first digits ends where the numeral ends. -/
theorem unsignedLexeme_chars (digits : List Char) :
    unsignedLexeme digits (numeral.fractionChars ++ (numeral.powerChars ++ next)) =
      (decide numeral.IsReal, digits ++ numeral.fractionChars ++ numeral.powerChars) := by
  have isReal : numeral.fractionChars ++ numeral.powerChars ≠ [] ↔ numeral.IsReal := by
    simp only [Numeral.fractionChars, Numeral.powerChars, Numeral.IsReal]
    split <;> split <;> simp_all
  simp only [unsignedLexeme, fractionLexeme_chars numeral apart, List.drop_left,
    exponentLexeme_chars numeral apart, isReal]

end Numeral

/-- The literal of a numeral behind an optional minus sign. -/
def literalToken (negative : Bool) (numeral : Numeral) : Token :=
  numberToken (minusSign negative) (decide numeral.IsReal, numeral.chars)

/-- No digit is a letter. -/
theorem isAlpha_of_isDigit {char : Char} (isDigit : char.isDigit = true) : char.isAlpha = false := by
  have bounds : 48 ≤ char.toNat ∧ char.toNat ≤ 57 := Char.isDigit_iff_toNat.mp isDigit
  have noUpper : char.isUpper = false := decide_eq_false fun isUpper => by
    have above : 65 ≤ char.toNat := isUpper.1
    omega
  have noLower : char.isLower = false := by
    refine Bool.and_eq_false_iff.mpr (.inl (decide_eq_false fun isLower => ?_))
    have above : 97 ≤ char.toNat := isLower
    omega
  change (char.isUpper || char.isLower) = false
  rw [noUpper, noLower]
  rfl

/-- No identifier begins with a digit. -/
theorem isIdentifierStart_of_isDigit {char : Char} (isDigit : char.isDigit = true) :
    isIdentifierStart char = false := by
  have noUnderscore : char ≠ '_' := by
    rintro rfl
    exact absurd isDigit (by decide)
  rw [isIdentifierStart, isAlpha_of_isDigit isDigit, decide_eq_false noUnderscore]
  rfl

/-- A numeral is one word, with a minus sign or without. -/
theorem spells_numeral (negative : Bool) (numeral : Numeral) :
    Spells (minusSign negative ++ numeral.chars) (literalToken negative numeral) := by
  cases negative with
  | true =>
    refine .word '-' numeral.chars _ fun next apart => ?_
    have whole := wholeDigits_chars numeral apart numeral.whole_digits
    have unsigned := unsignedLexeme_chars numeral apart numeral.whole
    have noDash : isIdentifierStart '-' = false := by decide
    have noDigit : Char.isDigit '-' = false := by decide
    simp [frontLexeme, noDash, noDigit, Numeral.chars, List.append_assoc, whole, unsigned,
      numeral.whole_ne_nil, literalToken, minusSign]
  | false =>
    obtain ⟨digit, digits, whole⟩ := List.exists_cons_of_ne_nil numeral.whole_ne_nil
    have areDigits : ∀ char ∈ digit :: digits, char.isDigit = true := whole ▸ numeral.whole_digits
    have isDigit := areDigits digit List.mem_cons_self
    have noLetter := isIdentifierStart_of_isDigit isDigit
    have chars : minusSign false ++ numeral.chars =
        digit :: (digits ++ numeral.fractionChars ++ numeral.powerChars) := by
      simp [minusSign, Numeral.chars, whole]
    rw [chars]
    refine .word digit _ _ fun next apart => ?_
    have rest := wholeDigits_chars numeral apart fun char member =>
      areDigits char (List.mem_cons_of_mem _ member)
    have unsigned := unsignedLexeme_chars numeral apart digits
    simp [frontLexeme, isDigit, noLetter, List.append_assoc, rest, unsigned,
      literalToken, minusSign, numberToken, Numeral.chars, whole]

/-! Words with blanks between them. -/

/-- A text that consists of words, and of blanks where one word would run into the next. -/
inductive Joined : List (List Char) → List Char → Prop where
  | nil : Joined [] []
  | blank {words : List (List Char)} {text : List Char} (first : Char)
      (blank : isBlank first = true) (joined : Joined words text) : Joined words (first :: text)
  | word {words : List (List Char)} {text : List Char} (word : List Char)
      (apart : Apart text) (joined : Joined words text) : Joined (word :: words) (word ++ text)

/-- A single word is a text of that word. -/
theorem Joined.single (word : List Char) : Joined [word] word := by
  simpa using Joined.word word .nil .nil

/-- Two texts with a blank between them are a text of the words of both. -/
theorem Joined.append {words others : List (List Char)} {text other : List Char} {separator : Char}
    (blank : isBlank separator = true) (joined : Joined words text)
    (joinedOther : Joined others other) :
    Joined (words ++ others) (text ++ separator :: other) := by
  induction joined with
  | nil => exact .blank separator blank joinedOther
  | blank first isBlank _ ih => exact .blank first isBlank ih
  | @word words text word apart _ ih =>
    have apartAll : Apart (text ++ separator :: other) := by
      cases text with
      | nil => exact .blank blank other
      | cons first rest => exact .blank (apart first rfl) _
    rw [List.cons_append, List.append_assoc]
    exact .word word apartAll ih

/-- Texts with blanks between them are a text of the words of all. -/
theorem Joined.intercalate {α : Type} {words : α → List (List Char)} {text : α → List Char}
    {separator : Char} (blank : isBlank separator = true) {parts : List α}
    (joined : ∀ part ∈ parts, Joined (words part) (text part)) :
    Joined (parts.flatMap words) (List.intercalate [separator] (parts.map text)) := by
  induction parts with
  | nil => exact .nil
  | cons part parts ih =>
    rw [List.forall_mem_cons] at joined
    cases parts with
    | nil => simpa using joined.1
    | cons next parts =>
      have rest := ih joined.2
      rw [List.map_cons] at rest
      rw [List.flatMap_cons, List.map_cons, List.map_cons, List.intercalate_cons_cons]
      simpa using joined.1.append blank rest

/-- The tokens of words that are one token each. -/
def wordTokens (word : List Char) : List Token := (tokens? word).getD []

/-- A word that spells a token has that token and no other. -/
theorem Spells.wordTokens {word : List Char} {token : Token} (spells : Spells word token) :
    wordTokens word = [token] := by
  have tokens := tokens_spells spells .nil
  rw [List.append_nil, tokens_nil] at tokens
  rw [Script.wordTokens, tokens]
  rfl

/-- A word spells at most one token. -/
theorem Spells.unique {word : List Char} {token other : Token} (spells : Spells word token)
    (spellsOther : Spells word other) : token = other := by
  simpa [spells.wordTokens] using spellsOther.wordTokens

/-- A word that has no tokens, whatever follows it, is none. -/
theorem not_spells {word : List Char} (noTokens : ∀ next, tokens? (word ++ next) = none)
    (token : Token) : ¬ Spells word token := by
  intro spells
  have tokens := tokens_spells spells .nil
  rw [noTokens, tokens_nil] at tokens
  cases tokens

/-- A text of words that each spell a token has these tokens, in order. -/
theorem tokens_joined {words : List (List Char)} {text : List Char} (joined : Joined words text)
    (spelled : ∀ word ∈ words, ∃ token, Spells word token) :
    tokens? text = some (words.flatMap wordTokens) := by
  induction joined with
  | nil => exact tokens_nil
  | blank first blank _ ih => rw [tokens_blank blank, ih spelled]
  | word word apart _ ih =>
    rw [List.forall_mem_cons] at spelled
    obtain ⟨⟨token, spells⟩, spelledRest⟩ := spelled
    rw [tokens_spells spells apart, ih spelledRest, List.flatMap_cons, spells.wordTokens]
    rfl

/-- If a text of words has tokens, each of the words is one. -/
theorem spelled_of_tokens {words : List (List Char)} {text : List Char} {tokens : List Token}
    (joined : Joined words text)
    (areWords : ∀ word ∈ words, (∃ token, Spells word token) ∨ ∀ next, tokens? (word ++ next) = none)
    (isTokens : tokens? text = some tokens) : ∀ word ∈ words, ∃ token, Spells word token := by
  induction joined generalizing tokens with
  | nil => nofun
  | blank first blank _ ih =>
    rw [tokens_blank blank] at isTokens
    exact ih areWords isTokens
  | word word apart _ ih =>
    rw [List.forall_mem_cons] at areWords ⊢
    obtain ⟨⟨token, spells⟩ | noTokens, areOthers⟩ := areWords
    · rw [tokens_spells spells apart] at isTokens
      obtain ⟨rest, isRest, -⟩ := Option.map_eq_some_iff.mp isTokens
      exact ⟨⟨token, spells⟩, ih areOthers isRest⟩
    · rw [noTokens] at isTokens
      cases isTokens

end TimedCommands.Script
