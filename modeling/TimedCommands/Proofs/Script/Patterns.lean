import Mathlib.Computability.Language
import TimedCommands.Proofs.Script.Words

/-!
# Patterns of tokens

Every kind of token has a pattern, as have blanks and comments (`Token.pattern`, `Pattern.blanks`,
`Pattern.comment`). Patterns are languages over characters, made of classes of characters; which
characters their words begin with, or have in them, is read off the way they are made
(`Pattern.Begins`, `Pattern.Within`).
-/

namespace TimedCommands.Script

open Computability

namespace Pattern

/-- One character of a class. -/
def one (char? : Char → Bool) : Language Char := {word : List Char | ∃ char, char? char = true ∧ word = [char]}

/-- A word or nothing. -/
def optional (pattern : Language Char) : Language Char := 1 + pattern

/-- One word or several, one behind the other. -/
def repeated (pattern : Language Char) : Language Char := pattern * pattern∗

/-- Digits, at least one. -/
def digits : Language Char := repeated (one Char.isDigit)

/-- A minus sign or nothing. -/
def sign : Language Char := optional (one (· = '-'))

/-- A point and digits. -/
def fraction : Language Char := one (· = '.') * digits

/-- The letter of an exponent. -/
def isExponentLetter (char : Char) : Bool := char = 'e' ∨ char = 'E'

/-- A sign of an exponent. -/
def isSign (char : Char) : Bool := char = '+' ∨ char = '-'

/-- A letter, a sign or none, and digits. -/
def exponent : Language Char := one isExponentLetter * (optional (one isSign) * digits)

/-- An integer literal. -/
def integer : Language Char := sign * digits

/-- A real literal has a fraction or an exponent. -/
def real : Language Char := sign * (digits * (fraction * optional exponent + exponent))

/-- What may stand between the quotes of a text literal: no quote, backslash or newline, unless it is
a backslash with a character behind it. -/
def body : Language Char :=
  (one (· ∉ ['"', '\\', '\n']) + one (· = '\\') * one (· ≠ '\n'))∗

/-- A text literal. -/
def text : Language Char := one (· = '"') * body * one (· = '"')

/-- A name. -/
def name : Language Char := one isIdentifierStart * (one isIdentifierPart)∗

/-- Blanks, at least one. -/
def blanks : Language Char := repeated (one isBlank)

/-- A comment runs up to the end of its line. -/
def comment : Language Char := ({['#'], ['/', '/']} : Language Char) * (one (· ≠ '\n'))∗

/-- Blanks and comments, each comment with the newline that ends it. -/
def layout : Language Char := (one isBlank + comment * one (· = '\n'))∗

section Membership

variable {char? : Char → Bool} {pattern : Language Char} {word : List Char}

/-- The words of a class are its single characters. -/
@[simp] theorem mem_one_iff : word ∈ one char? ↔ ∃ char, char? char = true ∧ word = [char] := Iff.rfl

/-- An optional pattern has the words of the pattern, and the empty one. -/
@[simp] theorem mem_optional_iff : word ∈ optional pattern ↔ word = [] ∨ word ∈ pattern := by
  rw [optional, Language.mem_add, Language.mem_one]

/-- A word that is repeated no further, or one more word before the repetition of others. -/
theorem mem_kstar_cons_iff : word ∈ pattern∗ ↔ word = [] ∨ word ∈ pattern * pattern∗ := by
  rw [← Language.mem_one, ← Language.mem_add, Language.one_add_self_mul_kstar_eq_kstar]

/-- A word repeats a class if all of its characters are of the class. -/
theorem mem_kstar_one_iff : word ∈ (one char?)∗ ↔ ∀ char ∈ word, char? char = true := by
  constructor
  · rw [Language.mem_kstar]
    rintro ⟨words, rfl, areOne⟩ char member
    obtain ⟨_, isWord, inWord⟩ := List.mem_flatten.mp member
    obtain ⟨only, holds, rfl⟩ := areOne _ isWord
    rwa [List.mem_singleton.mp inWord]
  · intro holds
    rw [Language.mem_kstar]
    refine ⟨word.map fun char => [char], by simp [← List.flatMap_def], ?_⟩
    intro _ isWord
    obtain ⟨char, member, rfl⟩ := List.mem_map.mp isWord
    exact ⟨char, holds char member, rfl⟩

/-- A word repeats a class at least once if it has characters, and all are of the class. -/
theorem mem_repeated_one_iff :
    word ∈ repeated (one char?) ↔ word ≠ [] ∧ ∀ char ∈ word, char? char = true := by
  rw [repeated, Language.mem_mul]
  constructor
  · rintro ⟨_, ⟨char, holds, rfl⟩, rest, isRest, rfl⟩
    exact ⟨List.cons_ne_nil _ _, List.forall_mem_cons.mpr ⟨holds, mem_kstar_one_iff.mp isRest⟩⟩
  · rintro ⟨nonempty, holds⟩
    obtain ⟨char, rest, rfl⟩ := List.exists_cons_of_ne_nil nonempty
    rw [List.forall_mem_cons] at holds
    exact ⟨[char], ⟨char, holds.1, rfl⟩, rest, mem_kstar_one_iff.mpr holds.2, rfl⟩

/-- A word of a pattern in front of a repetition of it is a repetition of it. -/
theorem append_mem_kstar {rest : List Char} (isWord : word ∈ pattern) (isRest : rest ∈ pattern∗) :
    word ++ rest ∈ pattern∗ :=
  mem_kstar_cons_iff.mpr (.inr (Language.append_mem_mul isWord isRest))

/-- A word of a class and a pattern is a character of the one in front of a word of the other. -/
theorem mem_one_mul_iff :
    word ∈ one char? * pattern ↔ ∃ char rest, char? char = true ∧ rest ∈ pattern ∧ word = char :: rest := by
  rw [Language.mem_mul]
  constructor
  · rintro ⟨_, ⟨char, holds, rfl⟩, rest, isRest, rfl⟩
    exact ⟨char, rest, holds, isRest, rfl⟩
  · rintro ⟨char, rest, holds, isRest, rfl⟩
    exact ⟨[char], ⟨char, holds, rfl⟩, rest, isRest, rfl⟩

/-- Digits are one or more of them. -/
theorem mem_digits_iff : word ∈ digits ↔ word ≠ [] ∧ ∀ char ∈ word, char.isDigit = true :=
  mem_repeated_one_iff

end Membership

/-- All characters of the words of a pattern are of a class. -/
def Within (char? : Char → Bool) (pattern : Language Char) : Prop :=
  ∀ word ∈ pattern, ∀ char ∈ word, char? char = true

/-- The first characters of the words of a pattern are of a class. -/
def Begins (char? : Char → Bool) (pattern : Language Char) : Prop :=
  ∀ word ∈ pattern, ∀ first ∈ word.head?, char? first = true

section Classes

variable {char? own? : Char → Bool} {pattern later : Language Char}

/-- A class is within any class that includes it. -/
theorem Within.one (included : ∀ char, own? char = true → char? char = true) :
    Within char? (Pattern.one own?) := by
  rintro _ ⟨char, isOwn, rfl⟩ _ member
  rw [List.mem_singleton.mp member]
  exact included char isOwn

/-- Two patterns within a class are within it one behind the other. -/
theorem Within.mul (within : Within char? pattern) (withinLater : Within char? later) :
    Within char? (pattern * later) := by
  intro word isWord char member
  obtain ⟨front, isFront, back, isBack, rfl⟩ := Language.mem_mul.mp isWord
  rcases List.mem_append.mp member with inFront | inBack
  · exact within front isFront char inFront
  · exact withinLater back isBack char inBack

/-- What is within a class is so if it is optional. -/
theorem Within.optional (within : Within char? pattern) : Within char? (Pattern.optional pattern) := by
  intro word isWord
  rcases mem_optional_iff.mp isWord with rfl | isWord
  · exact List.forall_mem_nil _
  · exact within word isWord

/-- What is within a class is so if it is repeated. -/
theorem Within.kstar (within : Within char? pattern) : Within char? pattern∗ := by
  intro word isWord char member
  obtain ⟨words, rfl, areWords⟩ := Language.mem_kstar.mp isWord
  obtain ⟨part, isPart, inPart⟩ := List.mem_flatten.mp member
  exact within part (areWords part isPart) char inPart

/-- What is within a class begins with it. -/
theorem Within.begins (within : Within char? pattern) : Begins char? pattern :=
  fun word isWord first isFirst => within word isWord first (List.mem_of_head? isFirst)

/-- What begins with a class begins with any that includes it. -/
theorem Begins.mono (begins : Begins own? pattern)
    (included : ∀ char, own? char = true → char? char = true) : Begins char? pattern :=
  fun word isWord first isFirst => included first (begins word isWord first isFirst)

/-- A pattern with a class in front begins with that class. -/
theorem Begins.one_mul (included : ∀ char, own? char = true → char? char = true) :
    Begins char? (Pattern.one own? * later) := by
  intro word isWord first isFirst
  obtain ⟨char, rest, isOwn, -, rfl⟩ := mem_one_mul_iff.mp isWord
  obtain rfl := Option.some.inj isFirst
  exact included char isOwn

/-- Two patterns that begin with a class do so one behind the other, if the first is empty too. -/
theorem Begins.mul (begins : Begins char? pattern) (beginsLater : Begins char? later) :
    Begins char? (pattern * later) := by
  intro word isWord first isFirst
  obtain ⟨front, isFront, back, isBack, rfl⟩ := Language.mem_mul.mp isWord
  cases front with
  | nil => exact beginsLater back isBack first isFirst
  | cons char front => exact begins _ isFront first isFirst

/-- What begins with a class does so if it is optional. -/
theorem Begins.optional (begins : Begins char? pattern) : Begins char? (Pattern.optional pattern) := by
  intro word isWord
  rcases mem_optional_iff.mp isWord with rfl | isWord
  · nofun
  · exact begins word isWord

end Classes

/-- Nothing at all may stand between quotes. -/
theorem nil_mem_body : [] ∈ body := Language.nil_mem_kstar _

/-- A character that needs no escape may stand between quotes in front of what may. -/
theorem plain_mem_body {char : Char} {rest : List Char} (isPlain : char ∉ ['"', '\\', '\n'])
    (isBody : rest ∈ body) : char :: rest ∈ body :=
  append_mem_kstar (.inl ⟨char, decide_eq_true isPlain, rfl⟩) isBody

/-- A backslash may stand between quotes with any character but a newline behind it. -/
theorem escape_mem_body {char : Char} {rest : List Char} (noNewline : char ≠ '\n')
    (isBody : rest ∈ body) : '\\' :: char :: rest ∈ body :=
  have isEscape : ['\\', char] ∈ one (· = '\\') * one (· ≠ '\n') :=
    mem_one_mul_iff.mpr ⟨'\\', _, rfl, ⟨char, decide_eq_true noNewline, rfl⟩, rfl⟩
  append_mem_kstar (.inr isEscape) isBody

/-- A body of a text literal is empty, or begins with a plain character or an escape. -/
@[elab_as_elim]
theorem body_induction {motive : (chars : List Char) → chars ∈ body → Prop}
    (nil : motive [] nil_mem_body)
    (plain : ∀ char rest (isPlain : char ∉ ['"', '\\', '\n']) (isBody : rest ∈ body),
      motive rest isBody → motive (char :: rest) (plain_mem_body isPlain isBody))
    (escape : ∀ char rest (noNewline : char ≠ '\n') (isBody : rest ∈ body), motive rest isBody →
      motive ('\\' :: char :: rest) (escape_mem_body noNewline isBody))
    {chars : List Char} (isBody : chars ∈ body) : motive chars isBody := by
  obtain ⟨words, rfl, areWords⟩ := Language.mem_kstar.mp isBody
  induction words with
  | nil => exact nil
  | cons word words ih =>
    rw [List.forall_mem_cons] at areWords
    have isRest : words.flatten ∈ body := Language.join_mem_kstar areWords.2
    rcases areWords.1 with ⟨char, isPlain, rfl⟩ | ⟨_, ⟨_, isBackslash, rfl⟩, _, ⟨char, noNewline, rfl⟩, rfl⟩
    · exact plain char _ (of_decide_eq_true isPlain) isRest (ih areWords.2 isRest)
    · obtain rfl := of_decide_eq_true isBackslash
      exact escape char _ (of_decide_eq_true noNewline) isRest (ih areWords.2 isRest)

end Pattern

namespace Token

/-- The characters of a token. A text literal stands between its quotes. -/
def spelling : Token → List Char
  | keyword word => word.text.toList
  | integer literal => literal.toList
  | real literal => literal.toList
  | text raw => '"' :: raw.toList ++ ['"']
  | name spelling => spelling.toList

/-- How a token of its kind is spelled. -/
def pattern : Token → Language Char
  | keyword word => {word.text.toList}
  | integer _ => Pattern.integer
  | real _ => Pattern.real
  | text _ => Pattern.text
  | name _ => Pattern.name

end Token

end TimedCommands.Script
