import Mathlib
import TimedCommands.Proofs.Number.Numeral

/-!
# Reals read back

A real is its sign and the word of its magnitude. The text of a finite real is a numeral that
reads back to that word, behind a minus sign if the real is negative, so reading the text gives
the real itself, the sign of a zero included (`RealFormat.writes_real`). What is not finite is
written as a word that is no numeral (`RealFormat.write_of_not_finite`).
-/

namespace TimedCommands

namespace Binary64

/-- A real is made of its sign and its magnitude. -/
theorem ofMagnitude_magnitudeWord (real : Float) :
    ofMagnitude (isNegative real) (magnitudeWord real) = real := by
  have below : real.toBits.toNat < 2 * signWord := real.toBits.toNat_lt
  have bits : (if isNegative real then signWord + magnitudeWord real else magnitudeWord real) =
      real.toBits.toNat := by
    rw [isNegative, magnitudeWord]
    by_cases negative : signWord ≤ real.toBits.toNat
    · rw [decide_eq_true negative, if_pos rfl]
      rw [signWord] at *
      omega
    · rw [decide_eq_false negative, if_neg Bool.false_ne_true]
      exact Nat.mod_eq_of_lt (Nat.lt_of_not_le negative)
  rw [ofMagnitude, bits, UInt64.ofNat_toNat, Float.ofBits_toBits]

open Float.Model in
/-- A real is finite unless all bits of its exponent are set. -/
theorem isFinite_iff_exponent (real : Float) :
    real.isFinite = true ↔ real.toBits.toNat / 2 ^ 52 % 2 ^ 11 ≠ 2047 := by
  have exponent :
      @UnpackedFloat.unpackExponent Format.binary64 real.toModel.toBits.toBitVec = -1#_ ↔
        real.toBits.toNat / 2 ^ 52 % 2 ^ 11 = 2047 := by
    rw [← BitVec.toNat_inj]
    simp [UnpackedFloat.unpackExponent, BitVec.extractLsb, Nat.shiftRight_eq_div_pow, Float.toBits]
  rw [Float.isFinite, Float.Model.isFinite, Float.Model.unpack, UnpackedFloat.unpack]
  simp only [exponent]
  split
  · split <;> simp_all [UnpackedFloat.isFinite]
  · split
    · split <;> simp_all [UnpackedFloat.isFinite]
    · simp_all [UnpackedFloat.isFinite]

/-- A real is finite if its magnitude lies below infinity. -/
theorem isFinite_iff (real : Float) :
    real.isFinite = true ↔ magnitudeWord real < infinityWord := by
  have bits : real.toBits.toNat < 2 ^ 64 := real.toBits.toNat_lt
  rw [isFinite_iff_exponent, magnitudeWord, signWord, infinityWord]
  omega

end Binary64

namespace RealFormat

/-- A finite real is written as a numeral that denotes it, with the plus sign of the format. -/
theorem writes_real (format : RealFormat) {real : Float} (finite : real.isFinite = true) :
    ∃ numeral : Numeral, numeral.IsReal ∧ numeral.NoLeadingZero ∧
      (format.write real).toList =
        minusSign (Binary64.isNegative real) ++ numeral.signedChars format.plusSign ∧
      Decimal.toFloat ⟨Binary64.isNegative real, numeral.magnitude.coefficient,
        numeral.magnitude.exponent⟩ = real := by
  have below := (Binary64.isFinite_iff real).mp finite
  obtain ⟨numeral, chars, isReal, noZero, value⟩ := writes_magnitude format below
  refine ⟨numeral, isReal, noZero, ?_, ?_⟩
  · rw [write, if_neg (by omega), if_neg (by omega), ← chars]
    cases Binary64.isNegative real <;> simp [minusSign]
  · have word : Decimal.word ⟨Binary64.isNegative real, numeral.magnitude.coefficient,
        numeral.magnitude.exponent⟩ = Binary64.magnitudeWord real := value
    rw [Decimal.toFloat, word, Binary64.ofMagnitude_magnitudeWord]

/-- A finite real is written as a numeral that reads back to it. -/
theorem reads_write {format : RealFormat} (noPlus : format.plusSign = false) {real : Float}
    (finite : real.isFinite = true) :
    ∃ numeral : Numeral, numeral.IsReal ∧
      (format.write real).toList = minusSign (Binary64.isNegative real) ++ numeral.chars ∧
      Decimal.toFloat ⟨Binary64.isNegative real, numeral.magnitude.coefficient,
        numeral.magnitude.exponent⟩ = real := by
  obtain ⟨numeral, isReal, -, chars, value⟩ := writes_real format finite
  rw [noPlus, Numeral.signedChars_false] at chars
  exact ⟨numeral, isReal, chars, value⟩

/-- A real that is not finite is written as one of three words. -/
theorem write_of_not_finite (format : RealFormat) {real : Float} (notFinite : real.isFinite = false) :
    format.write real ∈ [format.infinity, format.negativeInfinity, format.notANumber] := by
  have above : ¬ Binary64.magnitudeWord real < Binary64.infinityWord := by
    rw [← Binary64.isFinite_iff, notFinite]
    exact Bool.false_ne_true
  rw [write]
  split
  · simp
  · rw [if_pos (by omega)]
    cases Binary64.isNegative real <;> simp

end RealFormat

end TimedCommands
