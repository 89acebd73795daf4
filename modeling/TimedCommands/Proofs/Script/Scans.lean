import TimedCommands.Proofs.Script.Patterns

/-!
# Scans

A scan takes the longest word of its pattern off the front of a text. Two scans, one for what the
other leaves, take the longest word of both patterns if no word of the later one begins with a
character of the earlier one (`Scans.append`). So a number literal is the longest one there is,
though its sign, digits, fraction and exponent are taken one by one (`scans_numberChars`).
-/

namespace TimedCommands.Script

open Computability

namespace Pattern

/-- What may stand behind the digits of a number literal. -/
def decimals : Language Char := optional fraction * optional exponent

/-- What is taken for a number literal, if there is a digit in it. -/
def number : Language Char := sign * ((one Char.isDigit)∗ * decimals)

end Pattern

/-- A scan that answers with the longest word of a pattern at the front of a text. -/
structure Scans (scan : List Char → List Char) (pattern : Language Char) : Prop where
  isPrefix : ∀ chars, scan chars <+: chars
  mem : ∀ chars, scan chars ∈ pattern
  longest : ∀ chars word, word <+: chars → word ∈ pattern → word <+: scan chars

/-- One scan, and another for what it leaves. -/
def scanBoth (scan next : List Char → List Char) (chars : List Char) : List Char :=
  scan chars ++ next (chars.drop (scan chars).length)

/-- A text is its front and what is left behind it. -/
theorem append_drop_of_prefix {front chars : List Char} (isPrefix : front <+: chars) :
    front ++ chars.drop front.length = chars := by
  obtain ⟨rest, rfl⟩ := isPrefix
  rw [List.drop_left]

namespace Scans

variable {scan next : List Char → List Char} {pattern later : Language Char}

/-- Two scans find the longest word of both patterns if no word of the later one begins with a
character of the earlier one. -/
theorem append {within? begins? : Char → Bool} (scans : Scans scan pattern)
    (scansNext : Scans next later) (within : Pattern.Within within? pattern)
    (begins : Pattern.Begins begins? later)
    (apart : ∀ char, within? char = true → begins? char = true → False) :
    Scans (scanBoth scan next) (pattern * later) where
  isPrefix chars := by
    have rest := scansNext.isPrefix (chars.drop (scan chars).length)
    rw [scanBoth]
    conv_rhs => rw [← append_drop_of_prefix (scans.isPrefix chars)]
    exact (List.prefix_append_right_inj _).mpr rest
  mem chars := Language.append_mem_mul (scans.mem chars) (scansNext.mem _)
  longest chars word isPrefix isWord := by
    obtain ⟨own, isOwn, other, isOther, rfl⟩ := Language.mem_mul.mp isWord
    have ownFirst : own <+: scan chars :=
      scans.longest chars own ((List.prefix_append own other).trans isPrefix) isOwn
    obtain ⟨more, taken⟩ := ownFirst
    have isAll : own ++ (more ++ chars.drop (scan chars).length) = chars := by
      rw [← List.append_assoc, taken, append_drop_of_prefix (scans.isPrefix chars)]
    have isNext : other <+: more ++ chars.drop (scan chars).length := by
      rw [← isAll] at isPrefix
      exact (List.prefix_append_right_inj own).mp isPrefix
    cases more with
    | nil =>
      rw [List.append_nil] at taken
      rw [scanBoth, taken]
      rw [List.nil_append] at isNext
      exact (List.prefix_append_right_inj _).mpr
        (scansNext.longest _ other (taken ▸ isNext) isOther)
    | cons char more =>
      -- The first scan went on with a character that cannot begin another word.
      cases other with
      | nil =>
        rw [List.append_nil, scanBoth, ← taken]
        exact (List.prefix_append _ _).trans (List.prefix_append _ _)
      | cons first other =>
        obtain rfl : first = char := (List.cons_prefix_cons.mp isNext).1
        have inOwn : first ∈ scan chars := by
          rw [← taken]
          exact List.mem_append_right _ List.mem_cons_self
        exact (apart first (within _ (scans.mem chars) first inOwn) (begins _ isOther first rfl)).elim

/-- Characters of a class are scanned as long as there are any. -/
theorem takeWhile (char? : Char → Bool) : Scans (List.takeWhile char?) (Pattern.one char?)∗ where
  isPrefix chars := List.takeWhile_prefix _
  mem chars := by
    rw [Pattern.mem_kstar_one_iff, ← List.all_eq_true]
    exact List.all_takeWhile
  longest chars word isPrefix isWord := by
    obtain ⟨rest, rfl⟩ := isPrefix
    rw [List.takeWhile_append_of_pos (Pattern.mem_kstar_one_iff.mp isWord)]
    exact List.prefix_append _ _

end Scans

/-! The parts of a number literal. -/

/-- A fraction is scanned with all of its digits, if there is one. -/
theorem scans_fractionLexeme : Scans fractionLexeme (Pattern.optional Pattern.fraction) where
  isPrefix chars := by
    unfold fractionLexeme
    split
    · dsimp only
      split
      · exact List.nil_prefix
      · exact List.cons_prefix_cons.mpr ⟨rfl, List.takeWhile_prefix _⟩
    · exact List.nil_prefix
  mem chars := by
    rw [Pattern.mem_optional_iff]
    unfold fractionLexeme
    split
    case h_1 rest =>
      dsimp only
      split
      case isTrue => exact .inl rfl
      case isFalse some =>
        have digits := Pattern.mem_kstar_one_iff.mp ((Scans.takeWhile Char.isDigit).mem rest)
        exact .inr (Pattern.mem_one_mul_iff.mpr
          ⟨'.', _, rfl, Pattern.mem_digits_iff.mpr ⟨some, digits⟩, rfl⟩)
    case h_2 => exact .inl rfl
  longest chars word isPrefix isWord := by
    rw [Pattern.mem_optional_iff] at isWord
    rcases isWord with rfl | isFraction
    · exact List.nil_prefix
    · obtain ⟨_, digits, isPoint, isDigits, rfl⟩ := Pattern.mem_one_mul_iff.mp isFraction
      obtain rfl := of_decide_eq_true isPoint
      obtain ⟨some, areDigits⟩ := Pattern.mem_digits_iff.mp isDigits
      obtain ⟨rest, rfl⟩ := isPrefix
      have taken := (Scans.takeWhile Char.isDigit).longest (digits ++ rest) digits
        (List.prefix_append _ _) (Pattern.mem_kstar_one_iff.mpr areDigits)
      have notNil : (digits ++ rest).takeWhile Char.isDigit ≠ [] := fun isNil =>
        some (List.prefix_nil.mp (isNil ▸ taken))
      rw [List.cons_append, fractionLexeme, if_neg notNil]
      exact List.cons_prefix_cons.mpr ⟨rfl, taken⟩

/-- No sign is a digit. -/
theorem not_isDigit_of_isSign {char : Char} (isSign : Pattern.isSign char = true) :
    char.isDigit = false := by
  rcases of_decide_eq_true isSign with rfl | rfl <;> rfl

/-- An optional sign consists of signs. -/
theorem within_sign : Pattern.Within Pattern.isSign (Pattern.optional (Pattern.one Pattern.isSign)) :=
  (Pattern.Within.one fun _ => id).optional

/-- Repeated digits consist of digits. -/
theorem within_digits : Pattern.Within Char.isDigit (Pattern.one Char.isDigit)∗ :=
  (Pattern.Within.one fun _ => id).kstar

/-- The sign of an exponent is scanned if there is one. -/
theorem scans_exponentSign : Scans exponentSign (Pattern.optional (Pattern.one Pattern.isSign)) where
  isPrefix chars := by
    unfold exponentSign
    split <;> simp
  mem chars := by
    rw [Pattern.mem_optional_iff, exponentSign.eq_def]
    split <;> simp [Pattern.isSign]
  longest chars word isPrefix isWord := by
    rw [Pattern.mem_optional_iff] at isWord
    rcases isWord with rfl | ⟨char, isSign, rfl⟩
    · exact List.nil_prefix
    · obtain ⟨rest, rfl⟩ := isPrefix
      rcases of_decide_eq_true isSign with rfl | rfl <;> exact List.prefix_rfl

/-- The sign and the digits of an exponent. -/
theorem scans_signedDigits : Scans (scanBoth exponentSign (List.takeWhile Char.isDigit))
    (Pattern.optional (Pattern.one Pattern.isSign) * (Pattern.one Char.isDigit)∗) :=
  scans_exponentSign.append (Scans.takeWhile _) within_sign within_digits.begins
    fun _ isSign isDigit => by simp [not_isDigit_of_isSign isSign] at isDigit

/-- A sign has no digit in it, so there are digits behind the one that is taken. -/
theorem digits_of_signed {sign digits : List Char}
    (isSign : sign ∈ Pattern.optional (Pattern.one Pattern.isSign)) (isDigits : digits ∈ Pattern.digits)
    (rest : List Char) :
    ((sign ++ digits ++ rest).drop (exponentSign (sign ++ digits ++ rest)).length).takeWhile
      Char.isDigit ≠ [] := by
  obtain ⟨some, areDigits⟩ := Pattern.mem_digits_iff.mp isDigits
  have taken := scans_signedDigits.longest (sign ++ digits ++ rest) _ (List.prefix_append _ _)
    (Language.append_mem_mul isSign (Pattern.mem_kstar_one_iff.mpr areDigits))
  intro isNil
  rw [scanBoth, isNil, List.append_nil] at taken
  obtain ⟨digit, digits, rfl⟩ := List.exists_cons_of_ne_nil some
  have isDigit := areDigits digit List.mem_cons_self
  have isSign := within_sign _ (scans_exponentSign.mem _) digit
    (taken.subset (List.mem_append_right sign List.mem_cons_self))
  simp [not_isDigit_of_isSign isSign] at isDigit

/-- An exponent is scanned with all of its digits, if there are any behind its letter and sign. -/
theorem scans_exponentLexeme : Scans exponentLexeme (Pattern.optional Pattern.exponent) where
  isPrefix chars := by
    unfold exponentLexeme
    split
    case h_1 letter rest =>
      dsimp only
      split
      · split
        · exact List.nil_prefix
        · exact List.cons_prefix_cons.mpr ⟨rfl, scans_signedDigits.isPrefix rest⟩
      · exact List.nil_prefix
    case h_2 => exact List.nil_prefix
  mem chars := by
    rw [Pattern.mem_optional_iff]
    unfold exponentLexeme
    split
    case h_1 letter rest =>
      dsimp only
      split
      case isTrue isLetter =>
        split
        case isTrue => exact .inl rfl
        case isFalse some =>
          have digits := Pattern.mem_kstar_one_iff.mp
            ((Scans.takeWhile Char.isDigit).mem (rest.drop (exponentSign rest).length))
          exact .inr (Pattern.mem_one_mul_iff.mpr ⟨letter, _, decide_eq_true isLetter,
            Language.append_mem_mul (scans_exponentSign.mem rest)
              (Pattern.mem_digits_iff.mpr ⟨some, digits⟩), rfl⟩)
      case isFalse => exact .inl rfl
    case h_2 => exact .inl rfl
  longest chars word isPrefix isWord := by
    rw [Pattern.mem_optional_iff] at isWord
    rcases isWord with rfl | isExponent
    · exact List.nil_prefix
    · obtain ⟨letter, signed, isLetter, isSigned, rfl⟩ := Pattern.mem_one_mul_iff.mp isExponent
      obtain ⟨sign, isSign, digits, isDigits, rfl⟩ := Language.mem_mul.mp isSigned
      obtain ⟨rest, rfl⟩ := isPrefix
      have areDigits := Pattern.mem_kstar_one_iff.mpr (Pattern.mem_digits_iff.mp isDigits).2
      have taken := scans_signedDigits.longest (sign ++ digits ++ rest) _ (List.prefix_append _ _)
        (Language.append_mem_mul isSign areDigits)
      rw [List.cons_append, exponentLexeme, if_pos (of_decide_eq_true isLetter),
        if_neg (digits_of_signed isSign isDigits rest)]
      exact List.cons_prefix_cons.mpr ⟨rfl, taken⟩

/-- The characters of a number literal behind its first digits. -/
def decimalChars : List Char → List Char := scanBoth fractionLexeme exponentLexeme

/-- The characters of an unsigned number literal. -/
def unsignedChars : List Char → List Char := scanBoth (List.takeWhile Char.isDigit) decimalChars

/-- The letter of an exponent is no digit. -/
theorem not_isDigit_of_isExponentLetter {char : Char}
    (isLetter : Pattern.isExponentLetter char = true) : char.isDigit = false := by
  rcases of_decide_eq_true isLetter with rfl | rfl <;> rfl

/-- A character of a fraction. -/
def isFractionChar (char : Char) : Bool := char = '.' || char.isDigit

/-- A character that a fraction or an exponent may begin with. -/
def isFractionStart (char : Char) : Bool := char = '.' || Pattern.isExponentLetter char

/-- What follows the whole digits begins with a point or the letter of an exponent. -/
theorem begins_decimals : Pattern.Begins isFractionStart Pattern.decimals := by
  refine (Pattern.Begins.one_mul ?_).optional.mul (Pattern.Begins.one_mul ?_).optional
  all_goals simp +contextual [isFractionStart]

/-- What follows the whole digits of a number is scanned as far as it goes. -/
theorem scans_decimalChars : Scans decimalChars Pattern.decimals := by
  have within : Pattern.Within isFractionChar (Pattern.optional Pattern.fraction) := by
    refine (Pattern.Within.mul (.one ?_) (.mul (.one ?_) (.kstar (.one ?_)))).optional
    all_goals simp +contextual [isFractionChar]
  have begins : Pattern.Begins Pattern.isExponentLetter (Pattern.optional Pattern.exponent) :=
    (Pattern.Begins.one_mul fun _ => id).optional
  refine scans_fractionLexeme.append scans_exponentLexeme within begins fun char isFraction isLetter => ?_
  rcases of_decide_eq_true isLetter with rfl | rfl <;> cases isFraction

/-- A number without its sign is scanned as far as it goes. -/
theorem scans_unsignedChars :
    Scans unsignedChars ((Pattern.one Char.isDigit)∗ * Pattern.decimals) := by
  refine (Scans.takeWhile _).append scans_decimalChars within_digits begins_decimals
    fun char isDigit starts => ?_
  rcases Bool.or_eq_true_iff.mp starts with isPoint | isLetter
  · obtain rfl := of_decide_eq_true isPoint
    cases isDigit
  · simp [not_isDigit_of_isExponentLetter isLetter] at isDigit

/-- The minus sign at the front, if there is one. -/
def minusLexeme : List Char → List Char
  | '-' :: _ => ['-']
  | _ => []

/-- A minus sign is scanned if there is one. -/
theorem scans_minusLexeme : Scans minusLexeme Pattern.sign where
  isPrefix chars := by
    unfold minusLexeme
    split <;> simp
  mem chars := by
    rw [Pattern.sign, Pattern.mem_optional_iff, minusLexeme.eq_def]
    split <;> simp
  longest chars word isPrefix isWord := by
    rw [Pattern.sign, Pattern.mem_optional_iff] at isWord
    rcases isWord with rfl | ⟨char, isMinus, rfl⟩
    · exact List.nil_prefix
    · obtain ⟨rest, rfl⟩ := isPrefix
      obtain rfl := of_decide_eq_true isMinus
      exact List.prefix_rfl

/-- A character that an unsigned number may begin with, or a part of one. -/
def isUnsignedStart (char : Char) : Bool := char.isDigit || isFractionStart char

/-- The characters of a number literal. -/
def numberChars : List Char → List Char := scanBoth minusLexeme unsignedChars

/-- A number is scanned as far as it goes. -/
theorem scans_numberChars : Scans numberChars Pattern.number := by
  have withinSign : Pattern.Within (· = '-') Pattern.sign := (Pattern.Within.one fun _ => id).optional
  have beginsUnsigned :
      Pattern.Begins isUnsignedStart ((Pattern.one Char.isDigit)∗ * Pattern.decimals) := by
    refine (Pattern.Within.one ?_).kstar.begins.mul (begins_decimals.mono ?_)
    all_goals simp +contextual [isUnsignedStart]
  refine scans_minusLexeme.append scans_unsignedChars withinSign beginsUnsigned
    fun char isMinus starts => ?_
  obtain rfl := of_decide_eq_true isMinus
  cases starts

end TimedCommands.Script
