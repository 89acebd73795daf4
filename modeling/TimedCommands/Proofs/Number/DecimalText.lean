import TimedCommands.Proofs.Number.Nearest

/-!
# Decimal literals

A decimal literal is a sign that may be left out, digits with a point among or around them, and a
power of ten that may be left out. It denotes the digits as one natural number, moved by its
fraction and its power (`DecimalText`). Reading a literal finds exactly this decimal, and fails if
the text is no literal (`Decimal.ofChars_eq_some_iff`).

The real of a decimal is the one nearest to it (`IsNearestReal`).
-/

namespace TimedCommands

/-- Decimal digits, or none. -/
def AreDigits (text : List Char) : Prop := ∀ char ∈ text, char.isDigit = true

/-- A sign, and whether it is a minus sign. It may be left out. -/
inductive SignText : List Char → Bool → Prop where
  | none : SignText [] false
  | plus : SignText ['+'] false
  | minus : SignText ['-'] true

/-- A point with the digits behind it. Both may be left out. -/
inductive FractionText : List Char → List Char → Prop where
  | none : FractionText [] []
  | point {digits : List Char} (areDigits : AreDigits digits) : FractionText ('.' :: digits) digits

/-- A power of ten, and its exponent. It may be left out. -/
inductive PowerText : List Char → Int → Prop where
  | none : PowerText [] 0
  | power {letter : Char} {sign digits : List Char} {negative : Bool}
      (isLetter : letter = 'e' ∨ letter = 'E') (isSign : SignText sign negative)
      (someDigits : digits ≠ []) (areDigits : AreDigits digits) :
      PowerText (letter :: (sign ++ digits))
        (if negative then -(Nat.ofDigitChars 10 digits 0 : Nat) else (Nat.ofDigitChars 10 digits 0 : Nat))

/-- A decimal literal, with the sign, the coefficient and the exponent of what it denotes. -/
inductive DecimalText : List Char → Bool → Nat → Int → Prop where
  | decimal {sign whole point fraction power : List Char} {negative : Bool} {exponent : Int}
      (isSign : SignText sign negative) (areDigits : AreDigits whole)
      (isFraction : FractionText point fraction) (someDigits : whole ≠ [] ∨ fraction ≠ [])
      (isPower : PowerText power exponent) :
      DecimalText (sign ++ (whole ++ (point ++ power))) negative
        (Nat.ofDigitChars 10 (whole ++ fraction) 0) (exponent - fraction.length)

/-- A real that is nearest to a decimal. -/
def IsNearestReal (negative : Bool) (coefficient : Nat) (exponent : Int) (real : Float) : Prop :=
  ∃ word,
    Binary64.IsNearest ((coefficient * 10 ^ exponent.toNat) <<< 1074) (10 ^ (-exponent).toNat) word ∧
      real = Float.ofBits (UInt64.ofNat (if negative then 2 ^ 63 + word else word))

/-- The first of digits is a digit. -/
theorem AreDigits.head {digits : List Char} (areDigits : AreDigits digits) :
    ∀ first ∈ digits.head?, first.isDigit = true :=
  fun first isFirst => areDigits first (List.mem_of_mem_head? isFirst)

/-- A power of ten begins with neither a digit nor a point. -/
theorem PowerText.head {power : List Char} {exponent : Int} (isPower : PowerText power exponent) :
    ∀ first ∈ power.head?, first.isDigit = false ∧ first ≠ '.' := by
  cases isPower with
  | none => nofun
  | power isLetter _ _ _ =>
    rintro _ ⟨⟩
    rcases isLetter with rfl | rfl <;> decide

namespace Decimal

/-- Digits are taken up to where they stop. -/
theorem spanDigits_append {digits next : List Char} (areDigits : AreDigits digits)
    (stops : ∀ first ∈ next.head?, first.isDigit = false) :
    spanDigits (digits ++ next) = (digits, next) := by
  rw [spanDigits, List.takeWhile_append_of_pos areDigits, List.dropWhile_append_of_pos areDigits]
  cases next with
  | nil => simp
  | cons first rest => simp [stops first rfl]

/-- Digits are split off the front of any text. -/
theorem exists_spanDigits (text : List Char) :
    ∃ digits next, text = digits ++ next ∧ AreDigits digits ∧ spanDigits text = (digits, next) :=
  ⟨_, _, List.takeWhile_append_dropWhile.symm, List.all_eq_true.mp List.all_takeWhile, rfl⟩

/-- A sign is split off what follows it, unless that begins with another sign. -/
theorem splitSign_append {sign next : List Char} {negative : Bool} (isSign : SignText sign negative)
    (noSign : ∀ first ∈ next.head?, first ≠ '-' ∧ first ≠ '+') :
    splitSign (sign ++ next) = (negative, next) := by
  cases isSign with
  | plus => rfl
  | minus => rfl
  | none =>
    rw [List.nil_append]
    unfold splitSign
    split
    · exact absurd rfl (noSign '-' rfl).1
    · exact absurd rfl (noSign '+' rfl).2
    · rfl

/-- A sign is split off the front of any text. -/
theorem exists_splitSign (text : List Char) :
    ∃ sign negative next, text = sign ++ next ∧ SignText sign negative ∧
      splitSign text = (negative, next) := by
  unfold splitSign
  split
  · exact ⟨_, _, _, rfl, .minus, rfl⟩
  · exact ⟨_, _, _, rfl, .plus, rfl⟩
  · exact ⟨_, _, _, rfl, .none, rfl⟩

/-- A digit is no sign. -/
theorem noSign_of_digit {char : Char} (isDigit : char.isDigit = true) : char ≠ '-' ∧ char ≠ '+' := by
  constructor <;> rintro rfl <;> exact absurd isDigit (by decide)

/-- The part of a literal behind its digits is its power of ten. -/
theorem exponentPart_eq_some_iff {power : List Char} {exponent : Int} :
    exponentPart? power = some exponent ↔ PowerText power exponent := by
  constructor
  · intro isPart
    unfold exponentPart? at isPart
    split at isPart
    · cases isPart
      exact .none
    · rename_i letter rest
      split at isPart
      case isFalse => cases isPart
      case isTrue isLetter =>
        obtain ⟨sign, negative, digits, rfl, isSign, splits⟩ := exists_splitSign rest
        simp only [splits] at isPart
        split at isPart
        case isFalse => cases isPart
        case isTrue areDigits =>
          cases isPart
          exact .power isLetter isSign areDigits.1 (List.all_eq_true.mp areDigits.2)
  · intro isPower
    cases isPower with
    | none => rfl
    | power isLetter isSign someDigits areDigits =>
      have split := splitSign_append isSign fun first isFirst =>
        noSign_of_digit (areDigits.head first isFirst)
      rw [exponentPart?, if_pos isLetter, split]
      exact if_pos ⟨someDigits, List.all_eq_true.mpr areDigits⟩

/-- The part of a literal behind its whole digits is a fraction and a power of ten. -/
theorem splitFraction_append {point fraction power : List Char} {exponent : Int}
    (isFraction : FractionText point fraction) (isPower : PowerText power exponent) :
    splitFraction (point ++ power) = (fraction, power) := by
  cases isFraction with
  | point areDigits => exact spanDigits_append areDigits fun first isFirst => (isPower.head first isFirst).1
  | none =>
    rw [List.nil_append]
    unfold splitFraction
    split
    · exact absurd rfl (isPower.head '.' rfl).2
    · rfl

/-- A fraction is split off the front of any text. -/
theorem exists_splitFraction (text : List Char) :
    ∃ point fraction next, text = point ++ next ∧ FractionText point fraction ∧
      splitFraction text = (fraction, next) := by
  unfold splitFraction
  split
  · rename_i rest
    obtain ⟨digits, next, rfl, areDigits, span⟩ := exists_spanDigits rest
    exact ⟨_, _, _, rfl, .point areDigits, span⟩
  · exact ⟨_, _, _, rfl, .none, rfl⟩

/-- Reading a text finds the decimal that it denotes as a literal, if it is one. -/
theorem ofChars_eq_some_iff {text : List Char} {decimal : Decimal} :
    ofChars? text = some decimal ↔
      DecimalText text decimal.negative decimal.coefficient decimal.exponent := by
  obtain ⟨negative, coefficient, exponent⟩ := decimal
  constructor
  · intro isRead
    obtain ⟨sign, isNegative, unsigned, rfl, isSign, splits⟩ := exists_splitSign text
    obtain ⟨whole, behind, rfl, areDigits, span⟩ := exists_spanDigits unsigned
    obtain ⟨point, fraction, power, rfl, isFraction, fractional⟩ := exists_splitFraction behind
    simp only [ofChars?, splits, span, fractional, Option.bind_eq_bind] at isRead
    split at isRead
    case isTrue => cases isRead
    case isFalse someDigits =>
      obtain ⟨exponent, isPart, result⟩ := Option.bind_eq_some_iff.mp isRead
      cases result
      exact .decimal isSign areDigits isFraction (not_and_or.mp someDigits)
        (exponentPart_eq_some_iff.mp isPart)
  · rintro (@⟨sign, whole, point, fraction, power, _, exponent, isSign, areDigits, isFraction,
      someDigits, isPower⟩)
    have stops : ∀ first ∈ (point ++ power).head?, first.isDigit = false := by
      cases isFraction with
      | none => exact fun first isFirst => (isPower.head first isFirst).1
      | point _ =>
        rintro _ ⟨⟩
        decide
    have noSign : ∀ first ∈ (whole ++ (point ++ power)).head?, first ≠ '-' ∧ first ≠ '+' := by
      cases whole with
      | cons digit _ =>
        rintro _ ⟨⟩
        exact noSign_of_digit (areDigits digit List.mem_cons_self)
      | nil =>
        cases isFraction with
        | none => simp at someDigits
        | point _ =>
          rintro _ ⟨⟩
          decide
    have split := splitSign_append isSign noSign
    have span := spanDigits_append areDigits stops
    have fractional := splitFraction_append isFraction isPower
    have part := exponentPart_eq_some_iff.mpr isPower
    simp only [ofChars?, split, span, fractional, part]
    exact if_neg (not_and_or.mpr someDigits)

/-- The real of a decimal is the one that is nearest to it. -/
theorem isNearestReal_iff (decimal : Decimal) {real : Float} :
    IsNearestReal decimal.negative decimal.coefficient decimal.exponent real ↔
      decimal.toFloat = real := by
  rw [IsNearestReal, toFloat, word_eq_nearestWord, Binary64.ofMagnitude]
  constructor
  · rintro ⟨word, nearest, rfl⟩
    rw [(Binary64.isNearest_iff decimal.denominator_pos).mp nearest]
    rfl
  · rintro rfl
    exact ⟨_, Binary64.isNearest_nearestWord _ decimal.denominator_pos, rfl⟩

end Decimal

end TimedCommands
