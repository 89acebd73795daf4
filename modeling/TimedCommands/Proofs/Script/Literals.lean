import TimedCommands.Proofs.Number.DecimalText
import TimedCommands.Script.Reading

/-!
# What literals mean

The literals of a script, told by their characters: a natural number is digits, an integer is one
behind a minus sign or none, a real is the one nearest to the decimal that is written, and in a
text an escape stands for one character. Reading a literal finds exactly this meaning, and no
literal has two.
-/

namespace TimedCommands.Script

/-- A literal of a natural number. -/
structure NaturalText (text : List Char) (number : Nat) : Prop where
  someDigits : text ≠ []
  areDigits : AreDigits text
  denotes : Nat.ofDigitChars 10 text 0 = number

/-- A literal of an integer. -/
inductive IntegerText : List Char → Int → Prop where
  | natural {text : List Char} {number : Nat} (isNatural : NaturalText text number) :
      IntegerText text number
  | negative {text : List Char} {number : Nat} (isNatural : NaturalText text number) :
      IntegerText ('-' :: text) (-number)

/-- A literal of a real: a decimal, and the real that is nearest to it. -/
def RealText (text : List Char) (real : Float) : Prop :=
  ∃ negative coefficient exponent,
    DecimalText text negative coefficient exponent ∧ IsNearestReal negative coefficient exponent real

/-- The characters between the quotes of a text literal, and those that they stand for. A backslash
makes a control character of `n`, `t`, `r` and `0` and is dropped before all others; one that stands
last is kept. -/
inductive Unescaped : List Char → List Char → Prop where
  | nil : Unescaped [] []
  | plain {char : Char} {rest meant : List Char} (noBackslash : char ≠ '\\')
      (later : Unescaped rest meant) : Unescaped (char :: rest) (char :: meant)
  | newline {rest meant : List Char} (later : Unescaped rest meant) :
      Unescaped ('\\' :: 'n' :: rest) ('\n' :: meant)
  | tab {rest meant : List Char} (later : Unescaped rest meant) :
      Unescaped ('\\' :: 't' :: rest) ('\t' :: meant)
  | carriageReturn {rest meant : List Char} (later : Unescaped rest meant) :
      Unescaped ('\\' :: 'r' :: rest) ('\r' :: meant)
  | null {rest meant : List Char} (later : Unescaped rest meant) :
      Unescaped ('\\' :: '0' :: rest) ('\x00' :: meant)
  | other {char : Char} {rest meant : List Char} (noControl : char ∉ ['n', 't', 'r', '0'])
      (later : Unescaped rest meant) : Unescaped ('\\' :: char :: rest) (char :: meant)
  | lone : Unescaped ['\\'] ['\\']

/-- The natural number that is read from a literal is the one that it denotes. -/
theorem literalNatural_eq_some_iff {text : List Char} {number : Nat} :
    literalNatural? text = some number ↔ NaturalText text number := by
  rw [literalNatural?]
  constructor
  · intro denotes
    split at denotes
    case isFalse => cases denotes
    case isTrue areDigits =>
      cases denotes
      exact ⟨areDigits.1, List.all_eq_true.mp areDigits.2, rfl⟩
  · rintro ⟨someDigits, areDigits, rfl⟩
    exact if_pos ⟨someDigits, List.all_eq_true.mpr areDigits⟩

/-- A literal without a minus sign is read as a natural number. -/
theorem literalInteger_of_digits {text : List Char} (areDigits : AreDigits text) :
    literalInteger? text = (literalNatural? text).map Int.ofNat := by
  unfold literalInteger?
  split
  · exact absurd (areDigits '-' List.mem_cons_self) (by decide)
  · rfl

/-- The integer that is read from a literal is the one that it denotes. -/
theorem literalInteger_eq_some_iff {text : List Char} {number : Int} :
    literalInteger? text = some number ↔ IntegerText text number := by
  constructor
  · intro denotes
    unfold literalInteger? at denotes
    split at denotes <;> obtain ⟨natural, isNatural, rfl⟩ := Option.map_eq_some_iff.mp denotes
    · exact .negative (literalNatural_eq_some_iff.mp isNatural)
    · exact .natural (literalNatural_eq_some_iff.mp isNatural)
  · rintro (isNatural | isNatural)
    · rw [literalInteger_of_digits isNatural.areDigits, literalNatural_eq_some_iff.mpr isNatural]
      rfl
    · rw [literalInteger?, literalNatural_eq_some_iff.mpr isNatural]
      rfl

/-- A literal is read as a 64-bit integer if there is one of its value. -/
theorem literalInt64_eq_some_iff {literal : String} {number : Int64} :
    literalInt64? literal = some number ↔ IntegerText literal.toList number.toInt := by
  rw [literalInt64?, Option.bind_eq_some_iff, ← literalInteger_eq_some_iff]
  constructor
  · rintro ⟨value, denotes, fits⟩
    rw [Progression.fitInteger?] at fits
    split at fits
    case isFalse => cases fits
    case isTrue inRange =>
      cases fits
      rw [denotes, Int64.toInt_ofInt_of_le inRange.1 (Int.lt_add_one_of_le inRange.2)]
  · intro denotes
    refine ⟨_, denotes, ?_⟩
    rw [Progression.fitInteger?, if_pos ⟨Int64.minValue_le_toInt number, Int64.toInt_le number⟩,
      Int64.ofInt_toInt]

/-- A literal is read as a time if it is one of a natural number and there is a time of its value. -/
theorem literalTime_eq_some_iff {literal : String} {time : Time} :
    literalTime? literal = some time ↔ NaturalText literal.toList time.toNat := by
  rw [literalTime?, ← literalNatural_eq_some_iff]
  cases literalNatural? literal.toList with
  | none => simp
  | some number =>
    constructor
    · intro denotes
      dsimp only at denotes
      split at denotes
      case isFalse => cases denotes
      case isTrue inRange =>
        cases denotes
        rw [UInt64.toNat_ofNat_of_lt' inRange]
    · intro denotes
      cases denotes
      simp [time.toNat_lt_size]

/-- The real that is read from a literal is the one nearest to the decimal that it denotes. -/
theorem literalReal_eq_some_iff {literal : String} {real : Float} :
    literalReal? literal = some real ↔ RealText literal.toList real := by
  rw [literalReal?, Option.map_eq_some_iff]
  constructor
  · rintro ⟨decimal, isRead, isReal⟩
    exact ⟨_, _, _, Decimal.ofChars_eq_some_iff.mp isRead, decimal.isNearestReal_iff.mpr isReal⟩
  · rintro ⟨negative, coefficient, exponent, isLiteral, isNearest⟩
    let decimal : Decimal := ⟨negative, coefficient, exponent⟩
    exact ⟨decimal, Decimal.ofChars_eq_some_iff.mpr isLiteral,
      decimal.isNearestReal_iff.mp isNearest⟩

/-- Removing the escapes of a text gives what it is unescaped to, whatever the text. -/
theorem unescaped_unescape (raw : List Char) : Unescaped raw (unescape raw) := by
  fun_induction unescape raw with
  | case1 => exact .nil
  | case2 char rest meant ih =>
    by_cases control : char ∈ ['n', 't', 'r', '0']
    · simp only [List.mem_cons, List.not_mem_nil, or_false] at control
      rcases control with rfl | rfl | rfl | rfl
      · exact .newline ih
      · exact .tab ih
      · exact .carriageReturn ih
      · exact .null ih
    · have isChar : meant = char := by
        simp only [List.mem_cons, List.not_mem_nil, or_false, not_or] at control
        simp only [meant]
        split <;> simp_all
      rw [isChar]
      exact .other control ih
  | case3 char rest noEscape ih =>
    by_cases backslash : char = '\\'
    · cases rest with
      | nil =>
        rw [backslash]
        exact .lone
      | cons next later => exact absurd rfl (noEscape next later backslash)
    · exact .plain backslash ih

/-- The text that is read from a literal is the one that it stands for. -/
theorem unescape_eq_iff {raw meant : List Char} : unescape raw = meant ↔ Unescaped raw meant := by
  constructor
  · rintro rfl
    exact unescaped_unescape raw
  · intro unescaped
    induction unescaped with
    | nil => rfl
    | lone => rfl
    | _ => simp_all [unescape]

end TimedCommands.Script
