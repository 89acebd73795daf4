import TimedCommands.Json.Text

/-!
# Texts read back

A character is written as itself, as a letter behind a backslash or by its number, and read as one
piece, the piece that it was written as (`Escapes.readPieces`). No piece is a half of a pair, so the
pieces of a quoted text are decoded one by one, to its characters (`textOf_piecesOf`).
-/

namespace TimedCommands.Json

/-- The control characters that are written as a letter behind a backslash. -/
def shortEscapes : List Char := ['\x08', '\x0c', '\n', '\r', '\t']

/-- What a character is read as once it is written. -/
def pieceOf (char : Char) : Piece :=
  if char < ' ' ∧ char ∉ shortEscapes then .unit char.toNat else .char char

/-- The written forms of a character, each with the piece it is read as. -/
inductive Escapes (char : Char) : List Char → Piece → Prop where
  | letter {letter : Char} (isEscape : unescape? letter = some char) :
      Escapes char ['\\', letter] (.char char)
  | unit {high low : Char} (control : char < ' ')
      (isNumber : Text.hexNumber? ['0', '0', high, low] = some char.toNat) :
      Escapes char ['\\', 'u', '0', '0', high, low] (.unit char.toNat)
  | plain (noQuote : char ≠ '"') (noBackslash : char ≠ '\\') (printed : ¬ char < ' ') :
      Escapes char [char] (.char char)

/-- A control character has two hexadecimal digits. -/
theorem hexPair_reads {number : Nat} (control : number < 32) :
    ∃ high low, hexPair number = [high, low] ∧
      Text.hexNumber? ['0', '0', high, low] = some number := by
  have digits : ∀ number < 32,
      hexPair number = [Nat.digitChar (number / 16), Nat.digitChar (number % 16)] ∧
        Text.hexNumber? ['0', '0', Nat.digitChar (number / 16), Nat.digitChar (number % 16)] =
          some number := by decide
  exact ⟨_, _, digits number control⟩

/-- A character with a short escape is read back from it. -/
theorem escapes_of_short {char letter : Char} (isShort : char ∈ shortEscapes)
    (isEscape : unescape? letter = some char) : Escapes char ['\\', letter] (pieceOf char) := by
  have isChar : pieceOf char = .char char := if_neg fun unit => unit.2 isShort
  exact isChar ▸ .letter isEscape

/-- Every character is read back from the way in which it is written. -/
theorem escapes_escape (char : Char) : Escapes char (escape char) (pieceOf char) := by
  unfold escape
  split
  case isTrue quoted => rcases quoted with rfl | rfl <;> exact .letter rfl
  case isFalse noQuote =>
  split
  case isTrue isBackspace => exact isBackspace ▸ escapes_of_short (by decide) rfl
  split
  case isTrue isFormFeed => exact isFormFeed ▸ escapes_of_short (by decide) rfl
  split
  case isTrue isNewline => exact isNewline ▸ escapes_of_short (by decide) rfl
  split
  case isTrue isReturn => exact isReturn ▸ escapes_of_short (by decide) rfl
  split
  case isTrue isTab => exact isTab ▸ escapes_of_short (by decide) rfl
  case isFalse noTab =>
  split
  case isTrue control =>
    have isUnit : pieceOf char = .unit char.toNat := if_pos ⟨control, by simp_all [shortEscapes]⟩
    have small : char.toNat < 32 := control
    obtain ⟨high, low, isPair, isNumber⟩ := hexPair_reads small
    rw [isUnit, isPair]
    exact .unit control isNumber
  case isFalse printed =>
    have isChar : pieceOf char = .char char := if_neg fun control => printed control.1
    rw [not_or] at noQuote
    exact isChar ▸ .plain noQuote.1 noQuote.2 printed

/-- A written character is read as its piece. -/
theorem Escapes.readPieces {char : Char} {written : List Char} {piece : Piece}
    (escapes : Escapes char written piece) (rest : List Char) :
    readPieces? (written ++ rest) =
      (readPieces? rest).map fun (pieces, after) => (piece :: pieces, after) := by
  cases escapes with
  | @letter letter isEscape =>
    have noUnit : letter ≠ 'u' := by
      rintro rfl
      cases isEscape
    rw [List.cons_append, List.singleton_append, readPieces?, isEscape]
    · cases readPieces? rest <;> rfl
    · rintro first second third fourth rest ⟨⟩
      exact absurd rfl noUnit
  | unit control isNumber =>
    simp only [List.cons_append, List.nil_append]
    rw [readPieces?, isNumber]
    cases readPieces? rest <;> rfl
  | plain noQuote noBackslash printed =>
    rw [List.singleton_append, readPieces?, if_neg noQuote, if_neg (by simp [noBackslash, printed])]
    · cases readPieces? rest <;> rfl
    · intros
      exact absurd ‹_› noBackslash
    · intros
      exact absurd ‹_› noBackslash

/-- No character is written with a newline. -/
theorem Escapes.newline_notMem {char : Char} {written : List Char} {piece : Piece}
    (escapes : Escapes char written piece) : '\n' ∉ written := by
  cases escapes with
  | letter isEscape =>
    intro member
    simp only [List.mem_cons, List.not_mem_nil, or_false] at member
    obtain rfl := member.resolve_left (by decide)
    cases isEscape
  | @unit high low control isNumber =>
    simp only [List.mem_cons, List.not_mem_nil, or_false]
    rintro (isEscape | isEscape | isEscape | isEscape | rfl | rfl)
    iterate 4 cases isEscape
    · simp [Text.hexNumber?, Text.hexDigit?] at isNumber
    · cases Text.hexDigit? high <;> simp [Text.hexNumber?, Text.hexDigit?] at isNumber
  | plain noQuote noBackslash printed =>
    rw [List.mem_singleton]
    rintro rfl
    exact printed (by decide)

/-- The characters of a text are read up to the closing quote. -/
theorem readPieces_flatMap (chars rest : List Char) :
    readPieces? (chars.flatMap escape ++ '"' :: rest) = some (chars.map pieceOf, rest) := by
  induction chars with
  | nil => simp [readPieces?]
  | cons char chars ih =>
    rw [List.flatMap_cons, List.append_assoc, (escapes_escape char).readPieces, ih]
    rfl

/-- A unit that is no half of a pair is decoded on its own. -/
theorem decodePieces_unit {code : Nat} (noHigh : isHighSurrogate code = false)
    (noLow : isLowSurrogate code = false) (rest : List Piece) :
    decodePieces? (.unit code :: rest) = (decodePieces? rest).map (Char.ofNat code :: ·) := by
  cases rest with
  | nil => simp [decodePieces?, noHigh, noLow]
  | cons piece rest => cases piece <;> simp [decodePieces?, noHigh, noLow]

/-- The pieces of characters stand for these characters. -/
theorem decodePieces_pieceOf (chars : List Char) : decodePieces? (chars.map pieceOf) = some chars := by
  induction chars with
  | nil => rfl
  | cons char chars ih =>
    rw [List.map_cons, pieceOf]
    split
    case isTrue control =>
      have below : char.toNat < 32 := control.1
      rw [decodePieces_unit (by simp [isHighSurrogate]; omega) (by simp [isLowSurrogate]; omega), ih,
        Char.ofNat_toNat]
      rfl
    case isFalse =>
      rw [decodePieces?, ih]
      rfl

/-- What a text is read as once it is written. -/
def piecesOf (text : String) : List Piece := text.toList.map pieceOf

/-- A text is read up to its closing quote, whatever follows. -/
theorem readPieces_quote (text : String) (next : List Char) :
    readPieces? (text.toList.flatMap escape ++ '"' :: next) = some (piecesOf text, next) :=
  readPieces_flatMap text.toList next

/-- The pieces of a text stand for the text. -/
@[simp] theorem textOf_piecesOf (text : String) : textOf? (piecesOf text) = some text := by
  rw [textOf?, piecesOf, decodePieces_pieceOf, Option.map_some, String.ofList_toList]

/-- A quoted text stays on its line. -/
theorem newline_notMem_quote (text : String) : '\n' ∉ quote text := by
  simp [quote, (escapes_escape _).newline_notMem]

end TimedCommands.Json
