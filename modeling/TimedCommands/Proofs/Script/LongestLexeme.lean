import TimedCommands.Proofs.Script.Scans
import TimedCommands.Proofs.Script.TextLiteral

/-!
# The longest lexeme

The lexeme at the front of a text is the longest word of any token that begins there, and where a
name is spelled like a keyword it is the keyword (`isLongest_of_frontLexeme`). There is none only if
no word of any token begins there (`not_begins_of_error`). So a lexeme is found wherever it is the
longest, whatever stands behind it (`frontLexeme_eq_ok_iff`).
-/

namespace TimedCommands.Script

open Computability

/-- A lexeme is the longest word of a token at the front of a text, and a keyword rather than a name. -/
structure Lexeme.IsLongest (lexeme : Lexeme) (chars : List Char) : Prop where
  isPrefix : lexeme.chars <+: chars
  spelling : lexeme.token.spelling = lexeme.chars
  fits : lexeme.chars ∈ lexeme.token.pattern
  longest : ∀ (token : Token) word, word <+: chars → word ∈ token.pattern → word <+: lexeme.chars
  keyword : ∀ keyword : Keyword, lexeme.chars = keyword.text.toList → lexeme.token = .keyword keyword

/-! A word of a token is a name or a keyword, a number or a text, and its first character tells. -/

/-- The text of a keyword has the pattern of a name. -/
theorem text_mem_name (keyword : Keyword) : keyword.text.toList ∈ Pattern.name := by
  have isWord : isIdentifierChars keyword.text.toList = true := by cases keyword <;> decide
  generalize keyword.text.toList = chars at isWord
  cases chars with
  | nil => cases isWord
  | cons first rest =>
    rw [isIdentifierChars, Bool.and_eq_true, List.all_eq_true] at isWord
    exact Pattern.mem_one_mul_iff.mpr
      ⟨first, rest, isWord.1, Pattern.mem_kstar_one_iff.mpr isWord.2, rfl⟩

/-- A number literal, integer or real. -/
def Pattern.literal : Language Char := sign * (digits * decimals)

/-- An integer is a literal. -/
theorem literal_of_integer {word : List Char} (isInteger : word ∈ Pattern.integer) :
    word ∈ Pattern.literal := by
  obtain ⟨sign, isSign, digits, isDigits, rfl⟩ := Language.mem_mul.mp isInteger
  have none : [] ∈ Pattern.decimals := Language.append_mem_mul (a := []) (b := [])
    (Pattern.mem_optional_iff.mpr (.inl rfl)) (Pattern.mem_optional_iff.mpr (.inl rfl))
  rw [← List.append_nil digits]
  exact Language.append_mem_mul isSign (Language.append_mem_mul isDigits none)

/-- A real is a literal. -/
theorem literal_of_real {word : List Char} (isReal : word ∈ Pattern.real) : word ∈ Pattern.literal := by
  obtain ⟨sign, isSign, unsigned, isUnsigned, rfl⟩ := Language.mem_mul.mp isReal
  obtain ⟨digits, isDigits, more, isMore, rfl⟩ := Language.mem_mul.mp isUnsigned
  refine Language.append_mem_mul isSign (Language.append_mem_mul isDigits ?_)
  rcases isMore with isBoth | isExponent
  · obtain ⟨fraction, isFraction, exponent, isExponent, rfl⟩ := Language.mem_mul.mp isBoth
    exact Language.append_mem_mul (Pattern.mem_optional_iff.mpr (.inr isFraction)) isExponent
  · exact Language.append_mem_mul (a := []) (Pattern.mem_optional_iff.mpr (.inl rfl))
      (Pattern.mem_optional_iff.mpr (.inr isExponent))

/-- The words of tokens are names, literals of numbers and texts in quotes. -/
theorem mem_pattern_cases {token : Token} {word : List Char} (fits : word ∈ token.pattern) :
    word ∈ Pattern.name ∨ word ∈ Pattern.literal ∨ word ∈ Pattern.text := by
  cases token with
  | keyword keyword =>
    obtain rfl : word = keyword.text.toList := fits
    exact .inl (text_mem_name keyword)
  | integer literal => exact .inr (.inl (literal_of_integer fits))
  | real literal => exact .inr (.inl (literal_of_real fits))
  | text raw => exact .inr (.inr fits)
  | name spelling => exact .inl fits

/-- A literal has the pattern of a number, which takes in unfinished ones too. -/
theorem mem_number_of_literal {word : List Char} (isLiteral : word ∈ Pattern.literal) :
    word ∈ Pattern.number := by
  obtain ⟨sign, isSign, unsigned, isUnsigned, rfl⟩ := Language.mem_mul.mp isLiteral
  obtain ⟨digits, isDigits, more, isMore, rfl⟩ := Language.mem_mul.mp isUnsigned
  have someDigits := Pattern.mem_kstar_one_iff.mpr (Pattern.mem_digits_iff.mp isDigits).2
  exact Language.append_mem_mul isSign (Language.append_mem_mul someDigits isMore)

/-- A character that a number literal may begin with. -/
def isLiteralStart (char : Char) : Bool := char = '-' || char.isDigit

/-- A name begins as identifiers do. -/
theorem begins_name : Pattern.Begins isIdentifierStart Pattern.name :=
  Pattern.Begins.one_mul fun _ => id

/-- A literal begins with a digit, a point or a minus sign. -/
theorem begins_literal : Pattern.Begins isLiteralStart Pattern.literal := by
  rw [Pattern.literal, Pattern.digits, Pattern.repeated, mul_assoc]
  refine (Pattern.Within.one ?_).optional.begins.mul (Pattern.Begins.one_mul ?_)
  all_goals simp +contextual [isLiteralStart]

/-- A text begins with a quote. -/
theorem begins_text : Pattern.Begins (· = '"') Pattern.text := by
  intro word isWord
  rw [Pattern.text, mul_assoc] at isWord
  exact Pattern.Begins.one_mul (fun _ => id) word isWord

/-! Bodies of text literals. -/

/-- What may stand between quotes is read up to the closing one. -/
theorem textBody_append {body : List Char} (isBody : body ∈ Pattern.body) (next : List Char) :
    textBody (body ++ '"' :: next) = (body, true) := by
  induction isBody using Pattern.body_induction with
  | nil => simp [textBody]
  | plain char rest isPlain isBody ih => rw [List.cons_append, textBody_plain isPlain, ih]
  | escape char rest noNewline isBody ih =>
    rw [List.cons_append, List.cons_append, textBody_short noNewline, ih]

/-- A text literal that is closed has a body that may stand there, and ends with a quote. -/
theorem isBody_of_closed {chars : List Char} (closed : (textBody chars).2 = true) :
    (textBody chars).1 ∈ Pattern.body ∧ (textBody chars).1 ++ ['"'] <+: chars := by
  fun_induction textBody chars with
  | case1 => cases closed
  | case2 => cases closed
  | case3 char rest noNewline body isClosed same ih =>
    rw [same] at ih
    obtain ⟨isBody, isPrefix⟩ := ih closed
    exact ⟨Pattern.escape_mem_body noNewline isBody,
      List.cons_prefix_cons.mpr ⟨rfl, List.cons_prefix_cons.mpr ⟨rfl, isPrefix⟩⟩⟩
  | case4 rest => exact ⟨Pattern.nil_mem_body, List.prefix_append ['"'] rest⟩
  | case5 => cases closed
  | case6 char rest _ noQuote plain body isClosed same ih =>
    rw [same] at ih
    obtain ⟨isBody, isPrefix⟩ := ih closed
    have isPlain : char ∉ ['"', '\\', '\n'] := by simp_all
    exact ⟨Pattern.plain_mem_body isPlain isBody, List.cons_prefix_cons.mpr ⟨rfl, isPrefix⟩⟩

/-- A text literal at the front of a text ends with the first quote that closes it. -/
theorem mem_text_iff {word rest : List Char} (isPrefix : word <+: '"' :: rest) :
    word ∈ Pattern.text ↔ (textBody rest).2 = true ∧ word = '"' :: (textBody rest).1 ++ ['"'] := by
  have spelled {body : List Char} (isBody : body ∈ Pattern.body) :
      '"' :: body ++ ['"'] ∈ Pattern.text :=
    Language.append_mem_mul (Language.append_mem_mul (a := ['"']) ⟨'"', rfl, rfl⟩ isBody)
      ⟨'"', rfl, rfl⟩
  constructor
  · intro isText
    obtain ⟨front, isFront, _, ⟨close, isClose, rfl⟩, rfl⟩ := Language.mem_mul.mp isText
    obtain ⟨_, body, isOpen, isBody, rfl⟩ := Pattern.mem_one_mul_iff.mp isFront
    obtain rfl := of_decide_eq_true isOpen
    obtain rfl := of_decide_eq_true isClose
    obtain ⟨next, isRest⟩ := isPrefix
    have isRest : body ++ '"' :: next = rest := by simpa using isRest
    rw [← isRest, textBody_append isBody]
    exact ⟨rfl, rfl⟩
  · rintro ⟨closed, rfl⟩
    exact spelled (isBody_of_closed closed).1

/-! The lexeme of each kind. -/

/-- The word of a keyword is that keyword. -/
theorem wordToken_text (keyword : Keyword) : wordToken keyword.text = .keyword keyword := by
  cases keyword <;> rfl

/-- A word is a keyword if it is the text of one, and a name if not. -/
theorem wordToken_cases (word : String) :
    wordToken word = .name word ∨ ∃ keyword, wordToken word = .keyword keyword ∧ keyword.text = word := by
  rw [wordToken]
  split
  case h_1 keyword isKeyword =>
    have isText := List.find?_some isKeyword
    exact .inr ⟨keyword, rfl, of_decide_eq_true isText⟩
  case h_2 => exact .inl rfl

/-- The token of a word is spelled by that word. -/
theorem spelling_wordToken (word : String) : (wordToken word).spelling = word.toList := by
  rcases wordToken_cases word with isToken | ⟨keyword, isToken, rfl⟩
  · rw [isToken, Token.spelling]
  · rw [isToken, Token.spelling]

/-- A word with the pattern of a name has that of its token. -/
theorem mem_pattern_wordToken {word : String} (isName : word.toList ∈ Pattern.name) :
    word.toList ∈ (wordToken word).pattern := by
  rcases wordToken_cases word with isToken | ⟨keyword, isToken, rfl⟩
  · rw [isToken]
    exact isName
  · rw [isToken]
    rfl

/-- A word of a token that stands at the front of a text begins with its first character, if any. -/
theorem prefix_of_begins {first : Char} {rest word own : List Char} {begins? : Char → Bool}
    {pattern : Language Char} (begins : Pattern.Begins begins? pattern) (isWord : word ∈ pattern)
    (isPrefix : word <+: first :: rest) (other : begins? first = false) : word <+: own := by
  cases word with
  | nil => exact List.nil_prefix
  | cons char word =>
    obtain rfl : char = first := (List.cons_prefix_cons.mp isPrefix).1
    simp [begins _ isWord char rfl] at other

/-- No literal begins as identifiers do. -/
theorem not_isLiteralStart {char : Char} (starts : isIdentifierStart char = true) :
    isLiteralStart char = false := by
  rw [isLiteralStart, Bool.or_eq_false_iff]
  constructor
  · refine decide_eq_false ?_
    rintro rfl
    cases starts
  · by_contra isDigit
    rw [isIdentifierStart_of_isDigit (Bool.of_not_eq_false isDigit)] at starts
    cases starts

/-- An identifier goes as far as its characters do. -/
theorem isLongest_word {first : Char} {rest : List Char} (starts : isIdentifierStart first = true) :
    let own := rest.takeWhile isIdentifierPart
    Lexeme.IsLongest ⟨wordToken (String.ofList (first :: own)), first, own⟩ (first :: rest) := by
  intro own
  have isName : first :: own ∈ Pattern.name :=
    Pattern.mem_one_mul_iff.mpr ⟨first, own, starts, (Scans.takeWhile _).mem rest, rfl⟩
  have text : (String.ofList (first :: own)).toList = first :: own := String.toList_ofList
  refine ⟨List.cons_prefix_cons.mpr ⟨rfl, List.takeWhile_prefix _⟩, ?_, ?_, ?_, ?_⟩
  · rw [spelling_wordToken, text]
    rfl
  · have fits := mem_pattern_wordToken (text.symm ▸ isName)
    rwa [text] at fits
  · intro token word isPrefix fits
    rcases mem_pattern_cases fits with isWord | isLiteral | isText
    · obtain ⟨char, parts, -, areParts, rfl⟩ := Pattern.mem_one_mul_iff.mp isWord
      obtain ⟨rfl, inRest⟩ := List.cons_prefix_cons.mp isPrefix
      exact List.cons_prefix_cons.mpr
        ⟨rfl, (Scans.takeWhile isIdentifierPart).longest rest parts inRest areParts⟩
    · exact prefix_of_begins begins_literal isLiteral isPrefix (not_isLiteralStart starts)
    · refine prefix_of_begins begins_text isText isPrefix (decide_eq_false ?_)
      rintro rfl
      cases starts
  · intro keyword isText
    have isText : String.ofList (first :: own) = keyword.text := by
      rw [← String.ofList_toList (s := keyword.text)]
      exact congrArg String.ofList isText
    rw [isText, wordToken_text]

/-- A number literal is of the kind that is told by what stands behind its digits. -/
theorem mem_pattern_literal {sign digits more : List Char} (isSign : sign ∈ Pattern.sign)
    (isDigits : digits ∈ Pattern.digits) (isMore : more ∈ Pattern.decimals) :
    let chars := sign ++ (digits ++ more)
    (more = [] → chars ∈ Pattern.integer) ∧ (more ≠ [] → chars ∈ Pattern.real) := by
  refine ⟨fun whole => ?_, fun some => ?_⟩
  · rw [whole, List.append_nil]
    exact Language.append_mem_mul isSign isDigits
  · refine Language.append_mem_mul isSign (Language.append_mem_mul isDigits ?_)
    obtain ⟨fraction, isFraction, exponent, isExponent, rfl⟩ := Language.mem_mul.mp isMore
    rcases Pattern.mem_optional_iff.mp isFraction with rfl | isFraction
    · rw [List.nil_append] at some
      exact .inr ((Pattern.mem_optional_iff.mp isExponent).resolve_left some)
    · exact .inl (Language.append_mem_mul isFraction isExponent)

/-- A number literal goes as far as its scans do. -/
theorem isLongest_number {lexeme : Lexeme} {chars : List Char} (unsigned : List Char)
    (starts : ∀ first ∈ chars.head?, isLiteralStart first = true)
    (isUnsigned : unsigned = chars.drop (minusLexeme chars).length)
    (some : unsigned.takeWhile Char.isDigit ≠ []) (isChars : lexeme.chars = numberChars chars)
    (isToken : lexeme.token = numberToken []
      (decimalChars (unsigned.drop (unsigned.takeWhile Char.isDigit).length) ≠ [], lexeme.chars)) :
    lexeme.IsLongest chars := by
  have isSign := scans_minusLexeme.mem chars
  have isMore : decimalChars (unsigned.drop (unsigned.takeWhile Char.isDigit).length) ∈
      Pattern.decimals := scans_decimalChars.mem _
  have digits : unsigned.takeWhile Char.isDigit ∈ Pattern.digits :=
    Pattern.mem_digits_iff.mpr ⟨some, Pattern.mem_kstar_one_iff.mp ((Scans.takeWhile _).mem unsigned)⟩
  have parts : lexeme.chars = minusLexeme chars ++ (unsigned.takeWhile Char.isDigit ++
      decimalChars (unsigned.drop (unsigned.takeWhile Char.isDigit).length)) := by
    rw [isChars, isUnsigned]
    rfl
  have fits := mem_pattern_literal isSign digits isMore
  rw [← parts] at fits
  obtain ⟨first, rest, rfl⟩ : ∃ first rest, chars = first :: rest := by
    refine List.exists_cons_of_ne_nil ?_
    rintro rfl
    exact some (by rw [isUnsigned]; rfl)
  have starts := starts first rfl
  have isPrefix : lexeme.chars <+: first :: rest := isChars ▸ scans_numberChars.isPrefix _
  refine ⟨isPrefix, ?_, ?_, ?_, ?_⟩
  · rw [isToken, numberToken]
    split <;> simp [Token.spelling]
  · rw [isToken, numberToken]
    split
    case isTrue isReal => exact fits.2 (of_decide_eq_true isReal)
    case isFalse isWhole => exact fits.1 (by simpa using isWhole)
  · intro token word isPrefix fits
    rw [isChars]
    rcases mem_pattern_cases fits with isWord | isLiteral | isText
    · refine prefix_of_begins begins_name isWord isPrefix (Bool.eq_false_iff.mpr fun isStart => ?_)
      rw [not_isLiteralStart isStart] at starts
      cases starts
    · exact scans_numberChars.longest _ word isPrefix (mem_number_of_literal isLiteral)
    · refine prefix_of_begins begins_text isText isPrefix (decide_eq_false ?_)
      rintro rfl
      cases starts
  · intro keyword isText
    -- A keyword does not begin like a number.
    have isStart := begins_name _ (text_mem_name keyword) lexeme.first (by rw [← isText]; rfl)
    rw [(List.cons_prefix_cons.mp isPrefix).1] at isStart
    rw [not_isLiteralStart isStart] at starts
    cases starts

/-- A number literal without a sign goes as far as its scans do. -/
theorem isLongest_unsigned {first : Char} {rest : List Char} (isDigit : first.isDigit = true) :
    let digits := rest.takeWhile Char.isDigit
    let unsigned := unsignedLexeme digits (rest.drop digits.length)
    Lexeme.IsLongest ⟨numberToken [first] unsigned, first, unsigned.2⟩ (first :: rest) := by
  have noSign : minusLexeme (first :: rest) = [] := by
    unfold minusLexeme
    split
    case h_1 isMinus =>
      cases isMinus
      exact absurd isDigit (by decide)
    case h_2 => rfl
  have digits : (first :: rest).takeWhile Char.isDigit = first :: rest.takeWhile Char.isDigit :=
    List.takeWhile_cons_of_pos isDigit
  refine isLongest_number (first :: rest) ?_ ?_ ?_ ?_ ?_
  · rintro _ ⟨⟩
    rw [isLiteralStart, isDigit, Bool.or_true]
  · rw [noSign]
    rfl
  · rw [digits]
    exact List.cons_ne_nil _ _
  · simp [Lexeme.chars, unsignedLexeme, numberChars, unsignedChars, decimalChars, scanBoth, noSign, digits]
  · simp [numberToken, unsignedLexeme, decimalChars, scanBoth, digits, Lexeme.chars]

/-- A number literal with a sign goes as far as its scans do. -/
theorem isLongest_negative {rest : List Char} (some : rest.takeWhile Char.isDigit ≠ []) :
    let digits := rest.takeWhile Char.isDigit
    let unsigned := unsignedLexeme digits (rest.drop digits.length)
    Lexeme.IsLongest ⟨numberToken ['-'] unsigned, '-', unsigned.2⟩ ('-' :: rest) := by
  refine isLongest_number rest ?_ rfl some ?_ ?_
  · rintro _ ⟨⟩
    rfl
  · simp [Lexeme.chars, unsignedLexeme, numberChars, unsignedChars, decimalChars, scanBoth, minusLexeme]
  · simp [numberToken, unsignedLexeme, decimalChars, scanBoth, Lexeme.chars]

/-- A text literal goes up to the quote that closes it. -/
theorem isLongest_text {rest : List Char} (closed : (textBody rest).2 = true) :
    let body := (textBody rest).1
    Lexeme.IsLongest ⟨.text (String.ofList body), '"', body ++ ['"']⟩ ('"' :: rest) := by
  intro body
  have isPrefix : '"' :: body ++ ['"'] <+: '"' :: rest :=
    List.cons_prefix_cons.mpr ⟨rfl, (isBody_of_closed closed).2⟩
  refine ⟨isPrefix, ?_, (mem_text_iff isPrefix).mpr ⟨closed, rfl⟩, ?_, ?_⟩
  · simp [Token.spelling, Lexeme.chars]
  · intro token word isPrefix fits
    rcases mem_pattern_cases fits with isWord | isLiteral | isText
    · exact prefix_of_begins begins_name isWord isPrefix rfl
    · exact prefix_of_begins begins_literal isLiteral isPrefix rfl
    · rw [((mem_text_iff isPrefix).mp isText).2]
      exact List.prefix_rfl
  · intro keyword isText
    have isWord := begins_name _ (text_mem_name keyword) '"' (by rw [← isText]; rfl)
    cases isWord

/-- The front lexeme is the longest word of any token at the front of the text. -/
theorem isLongest_of_frontLexeme {first : Char} {rest : List Char} {lexeme : Lexeme}
    (front : frontLexeme first rest = .ok lexeme) : lexeme.IsLongest (first :: rest) := by
  unfold frontLexeme at front
  split at front
  case isTrue starts =>
    cases front
    exact isLongest_word starts
  split at front
  case isTrue isDigit =>
    cases front
    exact isLongest_unsigned isDigit
  split at front
  case isTrue isMinus =>
    subst isMinus
    dsimp only at front
    split at front
    · cases front
    case isFalse some =>
      cases front
      exact isLongest_negative some
  split at front
  case isTrue isQuote =>
    subst isQuote
    dsimp only at front
    split at front
    case isTrue closed =>
      cases front
      exact isLongest_text closed
    case isFalse => cases front
  case isFalse => cases front

/-- Where no lexeme is found, no word of a token begins. -/
theorem not_begins_of_error {first : Char} {rest slice : List Char}
    (front : frontLexeme first rest = .error slice) :
    ∀ (token : Token) word, word <+: first :: rest → word ∉ token.pattern := by
  intro token word isPrefix fits
  unfold frontLexeme at front
  split at front
  case isTrue => cases front
  case isFalse noLetter =>
  split at front
  case isTrue => cases front
  case isFalse noDigit =>
  rcases mem_pattern_cases fits with isWord | isLiteral | isText
  · obtain ⟨char, parts, starts, -, rfl⟩ := Pattern.mem_one_mul_iff.mp isWord
    rw [(List.cons_prefix_cons.mp isPrefix).1] at starts
    exact noLetter starts
  · obtain ⟨sign, isSign, unsigned, isUnsigned, rfl⟩ := Language.mem_mul.mp isLiteral
    obtain ⟨digits, isDigits, more, -, rfl⟩ := Language.mem_mul.mp isUnsigned
    obtain ⟨some, areDigits⟩ := Pattern.mem_digits_iff.mp isDigits
    obtain ⟨digit, digits, rfl⟩ := List.exists_cons_of_ne_nil some
    have isDigit := areDigits digit List.mem_cons_self
    rcases Pattern.mem_optional_iff.mp isSign with rfl | ⟨char, isMinus, rfl⟩
    · rw [← (List.cons_prefix_cons.mp isPrefix).1] at noDigit
      exact noDigit isDigit
    · obtain ⟨rfl, inRest⟩ := List.cons_prefix_cons.mp isPrefix
      obtain ⟨next, rfl⟩ := inRest
      rw [if_pos (of_decide_eq_true isMinus)] at front
      simp [isDigit] at front
  · have isQuote : first = '"' := by
      cases word with
      | nil =>
        have closed := ((mem_text_iff (List.nil_prefix : [] <+: '"' :: rest)).mp isText).2
        cases closed
      | cons char word =>
        rw [← (List.cons_prefix_cons.mp isPrefix).1]
        exact of_decide_eq_true (begins_text _ isText char rfl)
    subst isQuote
    simp [((mem_text_iff isPrefix).mp isText).1] at front

/-- An integer consists of characters with which literals begin. -/
theorem within_integer : Pattern.Within isLiteralStart Pattern.integer := by
  refine (Pattern.Within.one ?_).optional.mul ((Pattern.Within.one ?_).mul (Pattern.Within.one ?_).kstar)
  all_goals simp +contextual [isLiteralStart]

/-- A real literal has a point or an exponent in it. -/
theorem not_within_of_real {word : List Char} (isReal : word ∈ Pattern.real) :
    ¬ ∀ char ∈ word, isLiteralStart char = true := by
  intro areDigits
  obtain ⟨sign, -, unsigned, isUnsigned, rfl⟩ := Language.mem_mul.mp isReal
  obtain ⟨digits, -, more, isMore, rfl⟩ := Language.mem_mul.mp isUnsigned
  have areMore : ∀ char ∈ more, isLiteralStart char = true := fun char member =>
    areDigits char (List.mem_append_right _ (List.mem_append_right _ member))
  rcases isMore with isBoth | isExponent
  · rw [Pattern.fraction, mul_assoc] at isBoth
    obtain ⟨_, _, isPoint, -, rfl⟩ := Pattern.mem_one_mul_iff.mp isBoth
    obtain rfl := of_decide_eq_true isPoint
    exact absurd (areMore '.' List.mem_cons_self) (by decide)
  · obtain ⟨letter, _, isLetter, -, rfl⟩ := Pattern.mem_one_mul_iff.mp isExponent
    have isStart := areMore letter List.mem_cons_self
    rcases of_decide_eq_true isLetter with rfl | rfl <;> exact absurd isStart (by decide)

/-- The token that characters spell, if they spell one. -/
def tokenOf (chars : List Char) : Token :=
  if chars.head?.any isIdentifierStart then wordToken (String.ofList chars)
  else if chars.head? = some '"' then .text (String.ofList chars.tail.dropLast)
  else if chars.all isLiteralStart then .integer (String.ofList chars)
  else .real (String.ofList chars)

/-- A number literal does not begin like a name or a text literal. -/
theorem not_starts_of_literal {word : List Char} {first : Char} (isLiteral : word ∈ Pattern.literal)
    (isFirst : word.head? = some first) : isIdentifierStart first = false ∧ first ≠ '"' := by
  have starts := begins_literal _ isLiteral _ isFirst
  refine ⟨Bool.eq_false_iff.mpr fun isStart => ?_, ?_⟩
  · rw [not_isLiteralStart isStart] at starts
    cases starts
  · rintro rfl
    cases starts

/-- The token of a longest lexeme is told by its characters. -/
theorem Lexeme.IsLongest.token_eq {lexeme : Lexeme} {chars : List Char}
    (longest : lexeme.IsLongest chars) : lexeme.token = tokenOf lexeme.chars := by
  have spelling := longest.spelling
  have fits := longest.fits
  have isFirst : lexeme.chars.head? = some lexeme.first := rfl
  cases isToken : lexeme.token with
  | keyword keyword =>
    rw [isToken] at spelling
    rw [← spelling]
    cases keyword <;> rfl
  | integer literal =>
    rw [isToken] at spelling fits
    obtain ⟨isStart, isQuote⟩ := not_starts_of_literal (literal_of_integer fits) isFirst
    have areDigits : lexeme.chars.all isLiteralStart = true :=
      List.all_eq_true.mpr (within_integer _ fits)
    rw [tokenOf, isFirst, Option.any_some, isStart, if_neg Bool.false_ne_true,
      if_neg (by simpa using isQuote), if_pos areDigits, ← spelling, Token.spelling,
      String.ofList_toList]
  | real literal =>
    rw [isToken] at spelling fits
    obtain ⟨isStart, isQuote⟩ := not_starts_of_literal (literal_of_real fits) isFirst
    have notDigits : ¬ lexeme.chars.all isLiteralStart = true := fun areDigits =>
      not_within_of_real fits (List.all_eq_true.mp areDigits)
    rw [tokenOf, isFirst, Option.any_some, isStart, if_neg Bool.false_ne_true,
      if_neg (by simpa using isQuote), if_neg notDigits, ← spelling, Token.spelling,
      String.ofList_toList]
  | text raw =>
    rw [isToken] at spelling
    rw [← spelling]
    simp [tokenOf, Token.spelling, isIdentifierStart]
  | name spelled =>
    rw [isToken] at spelling fits
    have starts := begins_name _ fits _ isFirst
    rw [tokenOf, isFirst, Option.any_some, if_pos starts, ← spelling, Token.spelling,
      String.ofList_toList]
    rcases wordToken_cases spelled with isName | ⟨keyword, -, isText⟩
    · exact isName.symm
    · have isKeyword := longest.keyword keyword (by rw [← spelling, isText]; rfl)
      rw [isToken] at isKeyword
      cases isKeyword

/-- Characters that are the longest word at the front of two texts are one lexeme. -/
theorem Lexeme.IsLongest.eq {lexeme other : Lexeme} {chars otherChars : List Char}
    (longest : lexeme.IsLongest chars) (otherLongest : other.IsLongest otherChars)
    (same : lexeme.chars = other.chars) : lexeme = other := by
  have token : lexeme.token = other.token := by rw [longest.token_eq, otherLongest.token_eq, same]
  obtain ⟨_, first, rest⟩ := lexeme
  obtain ⟨_, otherFirst, otherRest⟩ := other
  cases same
  cases token
  rfl

/-- The lexeme at the front of a text is the longest word of any token there, and the keyword where a
name and a keyword are spelled alike. -/
theorem frontLexeme_eq_ok_iff {first : Char} {rest : List Char} {lexeme : Lexeme} :
    frontLexeme first rest = .ok lexeme ↔ lexeme.IsLongest (first :: rest) := by
  constructor
  · exact isLongest_of_frontLexeme
  · intro longest
    cases front : frontLexeme first rest with
    | error slice => exact absurd longest.fits (not_begins_of_error front _ _ longest.isPrefix)
    | ok found =>
      have foundLongest := isLongest_of_frontLexeme front
      have same : found.chars = lexeme.chars :=
        (longest.longest _ _ foundLongest.isPrefix foundLongest.fits).eq_of_length_le
          (foundLongest.longest _ _ longest.isPrefix longest.fits).length_le
      rw [foundLongest.eq longest same]

end TimedCommands.Script
