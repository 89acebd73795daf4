import TimedCommands.Json.Number
import TimedCommands.Proofs.Number.RealText

/-!
# Literals read back

A numeral is read as the literal of its parts, whatever number ends there (`readLiteral_numeral`).
The literal of a finite real is no integer, and the real is the one nearest to it
(`reads_real`); what the literal is worth as a number is another matter, since its digits and its
power of ten are rounded one after the other. The literal of an integer is worth that integer
(`reads_integer`).
-/

namespace TimedCommands.Json

/-- A numeral as a literal. -/
def numeralLiteral (negative : Bool) (numeral : Numeral) : Literal where
  negative
  whole := numeral.whole
  fraction := numeral.fraction
  exponent := if numeral.power = [] then none else some ⟨numeral.negativePower, numeral.power⟩

/-- The real nearest to a literal. -/
def Literal.nearest (literal : Literal) : Float :=
  Decimal.toFloat {
    negative := literal.negative
    coefficient := Nat.ofDigitChars 10 (literal.whole ++ literal.fraction) 0
    exponent := literal.power - literal.fraction.length }

/-- What follows a number in a list: a separator, a bracket, or nothing. -/
def EndsItem (next : List Char) : Prop := ∀ first ∈ next.head?, first ∈ [',', ']']

section Numerals

variable (numeral : Numeral) {next : List Char}

/-- What ends an item goes on no number. -/
theorem EndsItem.stops (ends : EndsItem next) :
    ∀ first ∈ next.head?, first.isDigit = false ∧ first ≠ '.' ∧ first ≠ 'e' ∧ first ≠ 'E' := by
  intro first isFirst
  have isEnd := ends first isFirst
  simp only [List.mem_cons, List.not_mem_nil, or_false] at isEnd
  rcases isEnd with rfl | rfl <;> decide

/-- The whole digits of a numeral are read up to its fraction or power. -/
theorem readWhole_numeral (noZero : numeral.NoLeadingZero)
    (stops : ∀ first ∈ next.head?, first.isDigit = false) :
    readWhole? (numeral.whole ++ next) = some (numeral.whole, next) := by
  rcases noZero with isZero | noZero
  · rw [isZero]
    rfl
  · have digits := Decimal.spanDigits_append numeral.whole_digits stops
    unfold readWhole?
    split
    case h_1 rest isText =>
      obtain ⟨first, others, isWhole⟩ := List.exists_cons_of_ne_nil numeral.whole_ne_nil
      rw [isWhole] at isText noZero
      cases isText
      exact absurd rfl (noZero '0' rfl)
    case h_2 => simp [digits, numeral.whole_ne_nil]

/-- The fraction of a numeral is read up to its power. -/
theorem readFraction_numeral
    (stops : ∀ first ∈ next.head?, first.isDigit = false ∧ first ≠ '.') :
    readFraction? (numeral.fractionChars ++ next) = some (numeral.fraction, next) := by
  rw [Numeral.fractionChars]
  split
  case isTrue noFraction =>
    rw [noFraction, List.nil_append]
    unfold readFraction?
    split
    case h_1 chars => exact absurd rfl (stops '.' rfl).2
    case h_2 => rfl
  case isFalse someFraction =>
    have digits := Decimal.spanDigits_append numeral.fraction_digits fun first isFirst =>
      (stops first isFirst).1
    rw [List.cons_append, readFraction?]
    simp [digits, someFraction]

/-- The power of a numeral is read with or without a sign. -/
theorem readExponent_numeral (plus : Bool) (ends : EndsItem next) :
    readExponent? (numeral.signedPower plus ++ next) =
      some ((numeralLiteral false numeral).exponent, next) := by
  rw [numeralLiteral, Numeral.signedPower]
  split
  case isTrue noPower =>
    rw [List.nil_append]
    cases next with
    | nil => rfl
    | cons first rest =>
      have stops := (ends.stops first rfl).2.2
      rw [readExponent?, if_neg (by simp [stops])]
  case isFalse somePower =>
    have digits := Decimal.spanDigits_append numeral.power_digits fun first isFirst =>
      (ends.stops first isFirst).1
    obtain ⟨digit, others, isPower⟩ := List.exists_cons_of_ne_nil somePower
    have isDigit := numeral.power_digits digit (isPower ▸ List.mem_cons_self)
    have noSign : Decimal.splitSign (numeral.power ++ next) = (false, numeral.power ++ next) :=
      Decimal.splitSign_append .none (by simpa [isPower] using Decimal.noSign_of_digit isDigit)
    rw [List.cons_append, List.cons_append, List.append_assoc, readExponent?, if_pos (.inl rfl)]
    cases isNegative : numeral.negativePower with
    | true => simp [Decimal.splitSign, digits, somePower]
    | false =>
      cases plus with
      | true => simp [Decimal.splitSign, digits, somePower]
      | false => simp [noSign, digits, somePower]

/-- A numeral is read with all of its parts. -/
theorem readUnsigned_numeral (plus negative : Bool) (noZero : numeral.NoLeadingZero)
    (ends : EndsItem next) :
    readUnsigned? negative (numeral.signedChars plus ++ next) =
      some (numeralLiteral negative numeral, next) := by
  have powerStops : ∀ first ∈ (numeral.signedPower plus ++ next).head?,
      first.isDigit = false ∧ first ≠ '.' := by
    intro first isFirst
    rw [Numeral.signedPower] at isFirst
    split at isFirst
    · exact ⟨(ends.stops first isFirst).1, (ends.stops first isFirst).2.1⟩
    · cases isFirst
      decide
  have fractionStops : ∀ first ∈ (numeral.fractionChars ++ (numeral.signedPower plus ++ next)).head?,
      first.isDigit = false := by
    intro first isFirst
    rw [Numeral.fractionChars] at isFirst
    split at isFirst
    · exact (powerStops first isFirst).1
    · cases isFirst
      rfl
  rw [Numeral.signedChars, List.append_assoc, List.append_assoc, readUnsigned?,
    readWhole_numeral numeral noZero fractionStops]
  simp [readFraction_numeral numeral powerStops, readExponent_numeral numeral plus ends, numeralLiteral]

/-- A numeral is read as the literal of its parts. -/
theorem readLiteral_numeral (plus negative : Bool) (noZero : numeral.NoLeadingZero)
    (ends : EndsItem next) :
    readLiteral? (minusSign negative ++ (numeral.signedChars plus ++ next)) =
      some (numeralLiteral negative numeral, next) := by
  have unsigned := readUnsigned_numeral numeral plus negative noZero ends
  cases negative with
  | true => exact unsigned
  | false =>
    rw [minusSign, if_neg Bool.false_ne_true, List.nil_append]
    unfold readLiteral?
    split
    case h_1 chars isText =>
      obtain ⟨digit, rest, isWhole⟩ := List.exists_cons_of_ne_nil numeral.whole_ne_nil
      have isDigit := numeral.whole_digits digit (isWhole ▸ List.mem_cons_self)
      rw [Numeral.signedChars, isWhole] at isText
      cases isText
      cases isDigit
    case h_2 => exact unsigned

/-- The power that is read is that of the numeral. -/
theorem power_numeralLiteral (negative : Bool) :
    (numeralLiteral negative numeral).power = numeral.powerValue := by
  rw [Literal.power, numeralLiteral, Numeral.powerValue]
  by_cases noPower : numeral.power = []
  · simp [noPower]
  · cases isNegative : numeral.negativePower <;> simp [noPower]

end Numerals

/-- A finite real is written as a literal that is no integer, and is the real nearest to it. -/
theorem reads_real (format : RealFormat) {real : Float} (finite : real.isFinite = true) :
    ∃ literal,
      (∀ next, EndsItem next →
        readLiteral? ((format.write real).toList ++ next) = some (literal, next)) ∧
      literal.isWhole = false ∧ literal.nearest = real := by
  obtain ⟨numeral, isReal, noZero, chars, value⟩ := RealFormat.writes_real format finite
  refine ⟨numeralLiteral (Binary64.isNegative real) numeral, fun next ends => ?_, ?_, ?_⟩
  · rw [chars, List.append_assoc]
    exact readLiteral_numeral numeral _ _ noZero ends
  · rcases isReal with someFraction | somePower
    · simp [Literal.isWhole, numeralLiteral, someFraction]
    · simp [Literal.isWhole, numeralLiteral, somePower]
  · rw [Literal.nearest, power_numeralLiteral]
    exact value

/-- An integer is written as a literal that is worth it. -/
theorem reads_integer {number : Int} (least : Int64.minValue.toInt ≤ number)
    (below : number < UInt64.size) :
    ∃ literal,
      (∀ next, EndsItem next →
        readLiteral? ((toString number).toList ++ next) = some (literal, next)) ∧
      literal.isWhole = true ∧ literal.number? = some (.integer number) := by
  have noZero : (naturalNumeral number.natAbs).NoLeadingZero := by
    by_cases zero : number.natAbs = 0
    · exact .inl (by rw [naturalNumeral, zero]; rfl)
    · exact .inr (RealFormat.head_toDigits zero)
  have whole : (numeralLiteral (number < 0) (naturalNumeral number.natAbs)).isWhole = true := rfl
  refine ⟨numeralLiteral (number < 0) (naturalNumeral number.natAbs), fun next ends => ?_, whole, ?_⟩
  · rw [toList_toString, ← chars_naturalNumeral, ← Numeral.signedChars_false, List.append_assoc]
    exact readLiteral_numeral _ false _ noZero ends
  · have magnitude : Nat.ofDigitChars 10 (naturalNumeral number.natAbs).whole 0 = number.natAbs :=
      Nat.ofDigitChars_ten_toDigits
    rw [Literal.number?, whole]
    simp only [numeralLiteral, magnitude, Bool.not_true, Bool.false_eq_true, if_false]
    by_cases negative : number < 0
    · have same : -Int.ofNat number.natAbs = number := by simp only [Int.ofNat_eq_natCast]; omega
      have positive : 0 < number.natAbs := by omega
      rw [if_pos (decide_eq_true negative), same, if_pos ⟨positive, least⟩]
    · have same : (number.natAbs : Int) = number := by omega
      have fits : number.natAbs < UInt64.size := by omega
      rw [if_neg (by simpa using negative), if_pos fits, same]

end TimedCommands.Json
