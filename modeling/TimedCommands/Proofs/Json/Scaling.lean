import TimedCommands.Proofs.Json.Number
import TimedCommands.Proofs.Number.Arithmetic

/-!
# Literals that are rounded once

A literal is read by rounding its digits, and then what the power of ten makes of them. If the digits
are a number of at most fifty-three bits, they are a real, and so are the powers of ten up to the
twenty-second. Then the product and the quotient are all there is to round, so the literal is worth the
real nearest to it (`Literal.real?_of_isShort`).
-/

namespace TimedCommands.Json

open Binary64 (infinityWord units ofMagnitude)

/-- A natural number of few bits is a real. -/
theorem exists_nearestReal {number : Nat} (few : number < 2 ^ 53) :
    ∃ word < infinityWord, units word = number * 2 ^ 1074 ∧
      Decimal.nearestReal number = ofMagnitude false word := by
  have value : Decimal.numerator ⟨false, number, 0⟩ =
      number * 2 ^ 0 * Decimal.denominator ⟨false, number, 0⟩ := by
    simp [Decimal.numerator, Decimal.denominator]
  obtain ⟨word, finite, units, isReal⟩ := Decimal.exists_toFloat_eq _ few (Nat.zero_le _) value
  refine ⟨word, finite, by rw [units, Nat.pow_zero, Nat.mul_one], ?_⟩
  have positive : decide ((number : Int) < 0) = false := decide_eq_false (by omega)
  rw [Decimal.nearestReal, Int.natAbs_natCast, positive]
  exact isReal

/-- The powers of ten up to the twenty-second are reals. -/
theorem exists_powerOfTen {power : Nat} (small : power ≤ 22) :
    ∃ word < infinityWord, units word = 10 ^ power * 2 ^ 1074 ∧
      powerOfTen power = ofMagnitude false word := by
  have few : 5 ^ power < 2 ^ 53 :=
    (Nat.pow_le_pow_right (by decide) small).trans_lt (by decide)
  have ten : 5 ^ power * 2 ^ power = 10 ^ power := (Nat.mul_pow 5 2 power).symm
  have value : Decimal.numerator ⟨false, 1, power⟩ =
      5 ^ power * 2 ^ power * Decimal.denominator ⟨false, 1, power⟩ := by
    simp [Decimal.numerator, Decimal.denominator, ten]
  obtain ⟨word, finite, units, isReal⟩ := Decimal.exists_toFloat_eq _ few (by omega) value
  exact ⟨word, finite, by rw [units, ten], isReal⟩

/-- A product of a few bits and a small power of ten is rounded once. -/
theorem mul_powerOfTen {significand power : Nat} (few : significand < 2 ^ 53) (small : power ≤ 22) :
    Decimal.nearestReal significand * powerOfTen power = Decimal.toFloat ⟨false, significand, power⟩ := by
  obtain ⟨word, finite, isNumber, number⟩ := exists_nearestReal few
  obtain ⟨factor, factorFinite, isPower, ten⟩ := exists_powerOfTen small
  rw [number, ten, Binary64.mul_ofMagnitude _ _ finite factorFinite, isNumber, isPower, Decimal.toFloat,
    Decimal.word_eq_nearestWord, Nat.mul_mul_mul_comm]
  have noTens : (-(power : Int)).toNat = 0 := by omega
  refine congrArg (ofMagnitude _) (Binary64.nearestWord_congr ?_ (Decimal.denominator_pos _) ?_)
  · exact Nat.mul_pos (pow_pos two_pos _) (pow_pos two_pos _)
  · simp only [Decimal.numerator, Decimal.denominator, noTens, Int.toNat_natCast, Nat.pow_zero,
      Nat.mul_one]

/-- A quotient of a few bits and a small power of ten is rounded once. -/
theorem div_powerOfTen {significand power : Nat} (few : significand < 2 ^ 53) (small : power ≤ 22) :
    Decimal.nearestReal significand / powerOfTen power =
      Decimal.toFloat ⟨false, significand, -power⟩ := by
  obtain ⟨word, finite, isNumber, number⟩ := exists_nearestReal few
  obtain ⟨divisor, divisorFinite, isPower, ten⟩ := exists_powerOfTen small
  have some : 0 < Binary64.significand divisor := by
    have positive : 0 < units divisor := by
      rw [isPower]
      exact Nat.mul_pos (Nat.pow_pos (by decide)) (pow_pos two_pos _)
    rw [Binary64.units_eq] at positive
    exact Nat.pos_of_mul_pos_right positive
  rw [number, ten, Binary64.div_ofMagnitude _ _ finite divisorFinite some, isNumber, isPower,
    Decimal.toFloat, Decimal.word_eq_nearestWord, Binary64.nearestWord_mul _ _ (pow_pos two_pos _)]
  simp [Decimal.numerator, Decimal.denominator]

/-- A significand of few bits with a small power of ten is no infinity. -/
theorem word_lt_of_few (negative : Bool) {significand : Nat} (few : significand < 2 ^ 53) {power : Int}
    (small : power.natAbs ≤ 22) : Decimal.word ⟨negative, significand, power⟩ < infinityWord := by
  rw [Decimal.word_eq_nearestWord]
  apply Binary64.nearestWord_lt_infinityWord
  have largest : 2 ^ 53 * 10 ^ 22 < 2 ^ 1000 := by decide +kernel
  calc Decimal.numerator ⟨negative, significand, power⟩
      ≤ 2 ^ 53 * 10 ^ 22 := Nat.mul_le_mul few.le (Nat.pow_le_pow_right (by decide) (by dsimp only; omega))
    _ < 2 ^ 1000 := largest
    _ ≤ Decimal.denominator ⟨negative, significand, power⟩ * 2 ^ 1000 :=
        Nat.le_mul_of_pos_left _ (Decimal.denominator_pos _)

/-- A significand of few bits is scaled by a small power of ten with one rounding. -/
theorem scale_of_few {significand : Nat} (few : significand < 2 ^ 53) {power : Int}
    (small : power.natAbs ≤ 22) :
    scale? significand power = some (Decimal.toFloat ⟨false, significand, power⟩) := by
  cases power with
  | ofNat power =>
    have small : power ≤ 22 := small
    rw [scale?]
    split
    case isTrue nothing =>
      have zero : (0.0 : Float) = ofMagnitude false 0 := by decide +kernel
      subst nothing
      rw [Decimal.toFloat, Decimal.word_eq_nearestWord, Decimal.numerator, Nat.zero_mul,
        Binary64.nearestWord_zero (Decimal.denominator_pos _), zero]
    case isFalse =>
    rw [if_neg (by rw [largestPower]; omega)]
    have finite : (Decimal.toFloat ⟨false, significand, power⟩).isFinite = true :=
      Binary64.isFinite_ofMagnitude _ (word_lt_of_few false few small)
    simp only [mul_powerOfTen few small, finite]
    rfl
  | negSucc power =>
    have small : power + 1 ≤ 22 := small
    rw [scale?, divideByPower, if_pos (by rw [largestPower]; omega), div_powerOfTen few small]
    rfl

/-! Digits taken into a significand. -/

/-- Further digits do not make a number less. -/
theorem le_ofDigitChars (digits : List Char) (significand : Nat) :
    significand ≤ Nat.ofDigitChars 10 digits significand := by
  induction digits generalizing significand with
  | nil => exact le_rfl
  | cons digit digits ih =>
    rw [Nat.ofDigitChars_cons]
    have rest := ih (10 * significand + (digit.toNat - '0'.toNat))
    omega

/-- All digits of a number that fits 64 bits are taken. -/
theorem takeDigits_of_lt {digits : List Char} {significand : Nat}
    (below : Nat.ofDigitChars 10 digits significand < UInt64.size) :
    takeDigits significand digits = (Nat.ofDigitChars 10 digits significand, []) := by
  induction digits generalizing significand with
  | nil => rfl
  | cons digit digits ih =>
    rw [Nat.ofDigitChars_cons, Nat.mul_comm] at *
    have fits := (le_ofDigitChars digits _).trans_lt below
    rw [takeDigits, if_pos fits, ih below]

namespace Literal

/-- Whether the digits of a literal are a number of at most fifty-three bits, and the power of ten they
are scaled by is between the twenty-second and its inverse. -/
def IsShort (literal : Literal) : Prop :=
  Nat.ofDigitChars 10 (literal.whole ++ literal.fraction) 0 < 2 ^ 53 ∧
    (literal.power - literal.fraction.length).natAbs ≤ 22

instance (literal : Literal) : Decidable literal.IsShort :=
  inferInstanceAs (Decidable (_ ∧ _))

/-- A short literal is worth the real nearest to it. -/
theorem real?_of_isShort {literal : Literal} (short : literal.IsShort) :
    literal.real? = some literal.nearest := by
  obtain ⟨few, small⟩ := short
  have below : Nat.ofDigitChars 10 (literal.whole ++ literal.fraction) 0 < UInt64.size :=
    few.trans (by decide)
  rw [Nat.ofDigitChars_append] at below
  have whole := takeDigits_of_lt ((le_ofDigitChars literal.fraction _).trans_lt below)
  have fraction := takeDigits_of_lt below
  rw [← Nat.ofDigitChars_append] at fraction
  rw [real?, whole]
  simp only [fraction, List.length_nil, Nat.sub_zero]
  have scale : (((0 : Nat) : Int) - literal.fraction.length + literal.power) =
      literal.power - literal.fraction.length := by omega
  rw [scale, scale_of_few few small, nearest]
  cases isNegative : literal.negative with
  | false => rfl
  | true =>
    have finite := word_lt_of_few false few small
    exact congrArg some (Binary64.neg_ofMagnitude false finite)

end Literal

end TimedCommands.Json
