import TimedCommands.Proofs.Script.Words
import TimedCommands.Script.Reading
import TimedCommands.Text.Quoted

/-!
# Text literals read back

A quoted text is one text literal, whatever its characters are (`spells_quoted`). Its escapes
are read back one by one. The short ones stand for the characters that they were written for,
but of an escape by code point only the backslash is dropped, so a text comes back exactly if
none of its characters was written by its code point (`unescape_quoted_iff`).
-/

namespace TimedCommands

/-- A text whose characters are all written as themselves or by a short escape. -/
def Text.IsLegible (content : String) : Prop :=
  ∀ char ∈ content.toList, Text.quoteChar char ≠ Text.codePointEscape char

instance (content : String) : Decidable (Text.IsLegible content) :=
  List.decidableBAll _ content.toList

namespace Script

open Text

/-- How a character is written between quotes. -/
inductive Written (char : Char) : List Char → Prop where
  | plain (noEscape : char ∉ ['"', '\\', '\n']) : Written char [char]
  | short (shown : Char) (noNewline : shown ≠ '\n') (stands : unescape ['\\', shown] = [char]) :
      Written char ['\\', shown]
  | codePoint : Written char (codePointEscape char)

/-- Every character is quoted in one of the ways in which one is written. -/
theorem written_quoteChar (char : Char) : Written char (quoteChar char) := by
  unfold quoteChar
  split
  case isTrue isNull =>
    subst isNull
    exact .short '0' (by decide) rfl
  split
  case isTrue isTab =>
    subst isTab
    exact .short 't' (by decide) rfl
  split
  case isTrue isReturn =>
    subst isReturn
    exact .short 'r' (by decide) rfl
  split
  case isTrue isNewline =>
    subst isNewline
    exact .short 'n' (by decide) rfl
  case isFalse noNewline =>
    split
    case isTrue delimits =>
      rcases delimits with rfl | rfl
      · exact .short '\\' (by decide) rfl
      · exact .short '"' (by decide) rfl
    case isFalse noDelimiter =>
      split
      · exact .codePoint
      · refine .plain ?_
        simp only [List.mem_cons, List.not_mem_nil, or_false]
        tauto

/-- The hexadecimal digits of a number need no escape. -/
theorem plain_of_mem_toDigits (number : Nat) :
    ∀ digit ∈ Nat.toDigits 16 number, digit ∉ ['"', '\\', '\n'] := by
  induction number using Nat.strongRecOn with
  | ind number ih =>
    have plain (value : Nat) : value.digitChar ∉ ['"', '\\', '\n'] := by simp
    rw [Nat.toDigits_eq_if (by decide)]
    split
    · simp
    · intro digit member
      rcases List.mem_append.mp member with front | last
      · exact ih _ (by omega) digit front
      · rw [List.mem_singleton.mp last]
        exact plain _

/-! The body of a text literal. -/

/-- A character without an escape is read as part of the text. -/
theorem textBody_plain {char : Char} (plain : char ∉ ['"', '\\', '\n']) (rest : List Char) :
    textBody (char :: rest) = (char :: (textBody rest).1, (textBody rest).2) := by
  simp only [List.mem_cons, List.not_mem_nil, or_false, not_or] at plain
  obtain ⟨noQuote, noBackslash, noNewline⟩ := plain
  rw [textBody] <;> simp_all

/-- A backslash and the character behind it are read as part of the text, a quote included. -/
theorem textBody_short {shown : Char} (noNewline : shown ≠ '\n') (rest : List Char) :
    textBody ('\\' :: shown :: rest) =
      ('\\' :: shown :: (textBody rest).1, (textBody rest).2) := by
  simp [textBody, noNewline]

/-- Characters without an escape are read as part of the text. -/
theorem textBody_plains {chars : List Char} (plain : ∀ char ∈ chars, char ∉ ['"', '\\', '\n'])
    (rest : List Char) :
    textBody (chars ++ rest) = (chars ++ (textBody rest).1, (textBody rest).2) := by
  induction chars with
  | nil => rfl
  | cons char chars ih =>
    rw [List.forall_mem_cons] at plain
    rw [List.cons_append, textBody_plain plain.1, ih plain.2]
    rfl

/-- The digits of a code point, in their braces. -/
def codePointDigits (char : Char) : List Char :=
  '\x7b' :: Nat.toDigits 16 char.toNat ++ ['\x7d']

/-- The digits of a code point need no escape. -/
theorem plain_of_mem_codePointDigits (char : Char) :
    ∀ digit ∈ codePointDigits char, digit ∉ ['"', '\\', '\n'] := by
  intro digit member
  simp only [codePointDigits, List.cons_append, List.mem_cons, List.mem_append, List.not_mem_nil,
    or_false] at member
  rcases member with rfl | inDigits | rfl
  · decide
  · exact plain_of_mem_toDigits _ digit inDigits
  · decide

/-- A written character is read as part of the text, and the text goes on behind it. -/
theorem textBody_written {char : Char} {chars : List Char} (written : Written char chars)
    (rest : List Char) :
    textBody (chars ++ rest) = (chars ++ (textBody rest).1, (textBody rest).2) := by
  cases written with
  | plain plain => exact textBody_plain plain rest
  | short shown noNewline stands => exact textBody_short noNewline rest
  | codePoint =>
    change textBody ('\\' :: 'u' :: (codePointDigits char ++ rest)) = _
    rw [textBody_short (by decide), textBody_plains (plain_of_mem_codePointDigits char)]
    rfl

/-- A quoted text ends at its last quote. -/
theorem textBody_quoted (content next : List Char) :
    textBody (content.flatMap quoteChar ++ '"' :: next) = (content.flatMap quoteChar, true) := by
  induction content with
  | nil => simp [textBody]
  | cons char rest ih =>
    rw [List.flatMap_cons, List.append_assoc, textBody_written (written_quoteChar char), ih]

/-- A quoted text is one word. -/
theorem spells_quoted (content : String) :
    Spells (quoted content).toList (.text (String.ofList (content.toList.flatMap quoteChar))) := by
  rw [quoted, String.toList_ofList]
  refine .word '"' _ _ fun next apart => ?_
  have body := textBody_quoted content.toList next
  have noLetter : isIdentifierStart '"' = false := by decide
  have noDigit : Char.isDigit '"' = false := by decide
  simp [frontLexeme, noLetter, noDigit, body]

/-! What a text literal stands for. -/

/-- A character without an escape stands for itself. -/
theorem unescape_plain {char : Char} (noBackslash : char ≠ '\\') (rest : List Char) :
    unescape (char :: rest) = char :: unescape rest := by
  rw [unescape]
  rintro shown later rfl -
  exact noBackslash rfl

/-- Characters without an escape stand for themselves. -/
theorem unescape_plains {chars : List Char} (noBackslash : ∀ char ∈ chars, char ≠ '\\')
    (rest : List Char) : unescape (chars ++ rest) = chars ++ unescape rest := by
  induction chars with
  | nil => rfl
  | cons char chars ih =>
    rw [List.forall_mem_cons] at noBackslash
    rw [List.cons_append, unescape_plain noBackslash.1, ih noBackslash.2, List.cons_append]

/-- A short escape stands for its character whatever follows it. -/
theorem unescape_short {char shown : Char} (stands : unescape ['\\', shown] = [char])
    (rest : List Char) : unescape ('\\' :: shown :: rest) = char :: unescape rest := by
  have apart : unescape ('\\' :: shown :: rest) = unescape ['\\', shown] ++ unescape rest := rfl
  rw [apart, stands, List.singleton_append]

/-- A written character stands for the character, unless it is written by its code point. -/
theorem unescape_written {char : Char} {chars : List Char} (written : Written char chars)
    (legible : chars ≠ codePointEscape char) (rest : List Char) :
    unescape (chars ++ rest) = char :: unescape rest := by
  cases written with
  | plain plain =>
    have noBackslash : char ≠ '\\' := by
      rintro rfl
      exact plain (by decide)
    exact unescape_plain noBackslash rest
  | short shown noNewline stands => exact unescape_short stands rest
  | codePoint => exact absurd rfl legible

/-- Of an escape by code point only the backslash is dropped. -/
theorem unescape_codePointEscape (char : Char) (rest : List Char) :
    unescape (codePointEscape char ++ rest) = 'u' :: (codePointDigits char ++ unescape rest) := by
  have noBackslash : ∀ digit ∈ codePointDigits char, digit ≠ '\\' := by
    rintro digit member rfl
    exact plain_of_mem_codePointDigits char '\\' member (by decide)
  have stands : unescape ['\\', 'u'] = ['u'] := rfl
  change unescape ('\\' :: 'u' :: (codePointDigits char ++ rest)) = _
  rw [unescape_short stands, unescape_plains noBackslash]

/-- A quoted text is read back exactly if none of its characters is written by its code point. -/
theorem unescape_quoted_iff (content : List Char) :
    unescape (content.flatMap quoteChar) = content ↔
      ∀ char ∈ content, quoteChar char ≠ codePointEscape char := by
  induction content with
  | nil => simp [unescape]
  | cons char rest ih =>
    rw [List.flatMap_cons, List.forall_mem_cons]
    by_cases legible : quoteChar char = codePointEscape char
    · -- The character that is read instead is written as itself.
      have noMatch : 'u' ≠ char := by
        rintro rfl
        exact absurd legible (by decide)
      rw [legible, unescape_codePointEscape]
      simp [noMatch]
    · rw [unescape_written (written_quoteChar char) legible, List.cons.injEq, ih]
      simp [legible]

end Script

end TimedCommands
