import TimedCommands.Number.RealText
import TimedCommands.Proofs.Number.DecimalText

/-!
# Numerals

A magnitude is written as an unsigned numeral: digits, a fraction and a power of ten. Read back,
a numeral denotes a decimal (`Numeral.decimalText_chars`), and the numeral that a finite word is
written as denotes one that rounds to that word (`RealFormat.writes_magnitude`), wherever the
point was put.
-/

namespace TimedCommands

/-- An unsigned number as it is written: digits, a fraction behind a point unless it is empty,
and the digits of a power of ten behind a letter unless there are none. -/
structure Numeral where
  whole : List Char
  fraction : List Char
  negativePower : Bool
  power : List Char
  whole_ne_nil : whole ≠ []
  whole_digits : ∀ char ∈ whole, char.isDigit = true
  fraction_digits : ∀ char ∈ fraction, char.isDigit = true
  power_digits : ∀ char ∈ power, char.isDigit = true

namespace Numeral

/-- The fraction with its point. -/
def fractionChars (numeral : Numeral) : List Char :=
  if numeral.fraction = [] then [] else '.' :: numeral.fraction

/-- The minus sign of the power of ten, if there is one. -/
def powerSign (numeral : Numeral) : List Char := if numeral.negativePower then ['-'] else []

/-- The power of ten with its letter and sign. -/
def powerChars (numeral : Numeral) : List Char :=
  if numeral.power = [] then [] else 'e' :: numeral.powerSign ++ numeral.power

/-- All characters of a numeral. -/
def chars (numeral : Numeral) : List Char :=
  numeral.whole ++ numeral.fractionChars ++ numeral.powerChars

/-- The power of ten with its letter and sign, which is a plus sign for want of a minus sign if plus
signs are shown. -/
def signedPower (plus : Bool) (numeral : Numeral) : List Char :=
  let sign := if numeral.negativePower then ['-'] else if plus then ['+'] else []
  if numeral.power = [] then [] else 'e' :: sign ++ numeral.power

/-- All characters of a numeral, with the plus sign of its power if plus signs are shown. -/
def signedChars (plus : Bool) (numeral : Numeral) : List Char :=
  numeral.whole ++ numeral.fractionChars ++ numeral.signedPower plus

/-- Without a sign to its power, a numeral is written plainly. -/
theorem signedChars_false (numeral : Numeral) : numeral.signedChars false = numeral.chars := rfl

/-- The digits before the point begin with zero only if there are no others. -/
def NoLeadingZero (numeral : Numeral) : Prop :=
  numeral.whole = ['0'] ∨ ∀ first ∈ numeral.whole.head?, first ≠ '0'

/-- A numeral of a real shows a fraction or a power of ten. -/
def IsReal (numeral : Numeral) : Prop := numeral.fraction ≠ [] ∨ numeral.power ≠ []

instance (numeral : Numeral) : Decidable numeral.IsReal :=
  inferInstanceAs (Decidable (numeral.fraction ≠ [] ∨ numeral.power ≠ []))

/-- The power of ten that is written. -/
def powerValue (numeral : Numeral) : Int :=
  let power := Int.ofNat (Nat.ofDigitChars 10 numeral.power 0)
  if numeral.negativePower then -power else power

/-- What a numeral denotes. -/
def magnitude (numeral : Numeral) : Magnitude where
  coefficient := Nat.ofDigitChars 10 (numeral.whole ++ numeral.fraction) 0
  exponent := numeral.powerValue - numeral.fraction.length

end Numeral

/-- The minus sign of a literal, if it is negative. -/
def minusSign (negative : Bool) : List Char := if negative then ['-'] else []

/-- The sign of a literal is a sign text. -/
theorem signText_minusSign (negative : Bool) : SignText (minusSign negative) negative := by
  cases negative with
  | true => exact .minus
  | false => exact .none

namespace Numeral

variable (numeral : Numeral)

/-- The fraction of a numeral is a text of it. -/
theorem fractionText_fractionChars : FractionText numeral.fractionChars numeral.fraction := by
  rw [fractionChars]
  split
  case isTrue noFraction =>
    rw [noFraction]
    exact .none
  case isFalse => exact .point numeral.fraction_digits

/-- The power of a numeral is a text of it. -/
theorem powerText_powerChars : PowerText numeral.powerChars numeral.powerValue := by
  rw [powerChars, powerValue]
  split
  case isTrue noPower =>
    rw [noPower]
    simpa using PowerText.none
  case isFalse somePower =>
    exact .power (.inl rfl) (signText_minusSign numeral.negativePower) somePower numeral.power_digits

/-- A numeral behind a minus sign or none is a literal of what it denotes. -/
theorem decimalText_chars (negative : Bool) :
    DecimalText (minusSign negative ++ numeral.chars) negative numeral.magnitude.coefficient
      numeral.magnitude.exponent := by
  rw [chars, List.append_assoc]
  exact .decimal (signText_minusSign negative) numeral.whole_digits
    numeral.fractionText_fractionChars (.inl numeral.whole_ne_nil) numeral.powerText_powerChars

end Numeral

namespace RealFormat

/-- Characters that are a numeral of a real and read back to the word of a magnitude. -/
def Writes (plus : Bool) (chars : List Char) (magnitude : Magnitude) : Prop :=
  ∃ numeral : Numeral, numeral.signedChars plus = chars ∧ numeral.IsReal ∧ numeral.NoLeadingZero ∧
    numeral.magnitude.word = magnitude.word

/-- The digits of a number are digits. -/
theorem digits_toDigits (number : Nat) : ∀ char ∈ Nat.toDigits 10 number, char.isDigit = true :=
  fun _ member => Nat.isDigit_of_mem_toDigits (b := 10) (by decide) (by decide) member

/-- The digits of a number that is not zero do not begin with zero. -/
theorem head_toDigits {number : Nat} (positive : number ≠ 0) :
    ∀ first ∈ (Nat.toDigits 10 number).head?, first ≠ '0' := by
  induction number using Nat.strongRecOn with
  | ind number ih =>
    rcases Nat.lt_or_ge number 10 with short | long
    · have digit : ∀ number < 10, number ≠ 0 → number.digitChar ≠ '0' := by decide
      rw [Nat.toDigits_of_lt_base short]
      rintro _ ⟨⟩
      exact digit number short positive
    · obtain ⟨first, rest, digits⟩ :=
        List.exists_cons_of_ne_nil (Nat.toDigits_ne_nil (n := number / 10) (b := 10))
      have head := ih (number / 10) (by omega) (by omega)
      rw [digits] at head
      rw [Nat.toDigits_of_base_le (by decide) long, digits]
      exact head

/-- Zeros are digits. -/
theorem digits_replicate (zeros : Nat) : ∀ char ∈ List.replicate zeros '0', char.isDigit = true := by
  intro char member
  rw [List.eq_of_mem_replicate member]
  decide

/-- Digits behind digits are digits. -/
theorem digits_append {left right : List Char} (digits : ∀ char ∈ left, char.isDigit = true)
    (moreDigits : ∀ char ∈ right, char.isDigit = true) :
    ∀ char ∈ left ++ right, char.isDigit = true := by
  intro char member
  exact (List.mem_append.mp member).elim (digits char) (moreDigits char)

/-- An integral magnitude is written with the fraction zero. -/
theorem writes_integral (plus : Bool) (coefficient : Nat) {zeros : Nat}
    (noZeros : coefficient ≠ 0 ∨ zeros = 0) :
    Writes plus (positional (Nat.toDigits 10 coefficient) zeros) ⟨coefficient, zeros⟩ := by
  let numeral : Numeral := {
    whole := Nat.toDigits 10 coefficient ++ List.replicate zeros '0'
    fraction := ['0']
    negativePower := false
    power := []
    whole_ne_nil := by simp [Nat.toDigits_ne_nil]
    whole_digits := digits_append (digits_toDigits _) (digits_replicate _)
    fraction_digits := digits_replicate 1
    power_digits := nofun }
  refine ⟨numeral, ?_, .inl (List.cons_ne_nil _ _), ?_, ?_⟩
  · simp [numeral, Numeral.signedChars, Numeral.fractionChars, Numeral.signedPower, positional]
  · rcases noZeros with positive | rfl
    · obtain ⟨first, rest, digits⟩ :=
        List.exists_cons_of_ne_nil (Nat.toDigits_ne_nil (n := coefficient) (b := 10))
      have head := head_toDigits positive
      rw [digits] at head
      exact .inr (by simpa [numeral, digits] using head)
    · by_cases zero : coefficient = 0
      · exact .inl (by simp [numeral, zero])
      · exact .inr (by simpa [numeral] using head_toDigits zero)
  · have digits : numeral.whole ++ numeral.fraction =
        Nat.toDigits 10 coefficient ++ List.replicate (zeros + 1) '0' := by
      simp [numeral, List.replicate_succ']
    have value : numeral.magnitude = ⟨coefficient * 10 ^ (zeros + 1), -1⟩ := by
      rw [Numeral.magnitude, digits, Nat.ofDigitChars_append, Nat.ofDigitChars_ten_toDigits,
        Nat.ofDigitChars_replicate_zero, Nat.mul_comm]
      rfl
    have shifted : (-1 : Int) + (zeros + 1 : Nat) = zeros := by omega
    rw [value]
    exact (Decimal.word_shift false false coefficient (zeros + 1) (-1)).trans (by rw [shifted]; rfl)

/-- A magnitude below one is written with zeros in front of its digits. -/
theorem writes_below_one (plus : Bool) (coefficient : Nat) {places : Nat}
    (short : (Nat.toDigits 10 coefficient).length ≤ places + 1) :
    Writes plus (positional (Nat.toDigits 10 coefficient) (Int.negSucc places))
      ⟨coefficient, Int.negSucc places⟩ := by
  let numeral : Numeral := {
    whole := ['0']
    fraction := List.replicate (places + 1 - (Nat.toDigits 10 coefficient).length) '0' ++
      Nat.toDigits 10 coefficient
    negativePower := false
    power := []
    whole_ne_nil := List.cons_ne_nil _ _
    whole_digits := digits_replicate 1
    fraction_digits := digits_append (digits_replicate _) (digits_toDigits _)
    power_digits := nofun }
  have someFraction : numeral.fraction ≠ [] := by simp [numeral, Nat.toDigits_ne_nil]
  refine ⟨numeral, ?_, .inl someFraction, .inl rfl, congrArg Magnitude.word ?_⟩
  · have notShorter : ¬ places + 1 < (Nat.toDigits 10 coefficient).length := by omega
    rw [Numeral.signedChars, Numeral.fractionChars, if_neg someFraction, positional, if_neg notShorter]
    simp [numeral, Numeral.signedPower]
  · have digits : numeral.whole ++ numeral.fraction = List.replicate
        (places + 1 - (Nat.toDigits 10 coefficient).length + 1) '0' ++
          Nat.toDigits 10 coefficient := by
      simp [numeral, List.replicate_succ]
    have length : numeral.fraction.length = places + 1 := by
      simp only [numeral, List.length_append, List.length_replicate]
      omega
    rw [Numeral.magnitude, digits, length, Nat.ofDigitChars_append,
      Nat.ofDigitChars_replicate_zero, Nat.mul_zero, Nat.ofDigitChars_ten_toDigits]
    simp [numeral, Numeral.powerValue, Int.negSucc_eq]

/-- A magnitude with a fraction is written with the point among its digits. -/
theorem writes_fractional (plus : Bool) {coefficient places : Nat} (positive : coefficient ≠ 0)
    (long : places + 1 < (Nat.toDigits 10 coefficient).length) :
    Writes plus (positional (Nat.toDigits 10 coefficient) (Int.negSucc places))
      ⟨coefficient, Int.negSucc places⟩ := by
  let point := (Nat.toDigits 10 coefficient).length - (places + 1)
  let numeral : Numeral := {
    whole := (Nat.toDigits 10 coefficient).take point
    fraction := (Nat.toDigits 10 coefficient).drop point
    negativePower := false
    power := []
    whole_ne_nil := by simp [point, Nat.toDigits_ne_nil]; omega
    whole_digits := fun char member => digits_toDigits _ char (List.mem_of_mem_take member)
    fraction_digits := fun char member => digits_toDigits _ char (List.mem_of_mem_drop member)
    power_digits := nofun }
  have length : numeral.fraction.length = places + 1 := by
    simp only [numeral, point, List.length_drop]
    omega
  have someFraction : numeral.fraction ≠ [] := by
    intro noFraction
    simp [noFraction] at length
  refine ⟨numeral, ?_, .inl someFraction, .inr fun first isFirst => ?_, congrArg Magnitude.word ?_⟩
  · rw [Numeral.signedChars, Numeral.fractionChars, if_neg someFraction, positional, if_pos long]
    simp [numeral, point, Numeral.signedPower]
  · rw [List.head?_take] at isFirst
    split at isFirst
    · cases isFirst
    · exact head_toDigits positive first isFirst
  · rw [Numeral.magnitude, length, List.take_append_drop, Nat.ofDigitChars_ten_toDigits]
    simp [numeral, Numeral.powerValue, Int.negSucc_eq]

/-- A magnitude that is written by position is the coefficient with its point in place. -/
theorem writes_positional (plus : Bool) {coefficient : Nat} (positive : coefficient ≠ 0)
    (exponent : Int) :
    Writes plus (positional (Nat.toDigits 10 coefficient) exponent) ⟨coefficient, exponent⟩ := by
  cases exponent with
  | ofNat zeros => exact writes_integral plus _ (.inl positive)
  | negSucc places =>
    rcases Nat.lt_or_ge (places + 1) (Nat.toDigits 10 coefficient).length with long | short
    · exact writes_fractional plus positive long
    · exact writes_below_one plus coefficient short

/-- A magnitude in scientific notation shows its first digit before the point. -/
theorem writes_scientific (plus : Bool) {coefficient : Nat} (positive : coefficient ≠ 0)
    (exponent : Int) :
    Writes plus
      (scientific plus (Nat.toDigits 10 coefficient)
        ((Nat.toDigits 10 coefficient).length - 1 + exponent)) ⟨coefficient, exponent⟩ := by
  obtain ⟨first, rest, digits⟩ := List.exists_cons_of_ne_nil (Nat.toDigits_ne_nil (n := coefficient) (b := 10))
  have areDigits := digits_toDigits coefficient
  have value := Nat.ofDigitChars_ten_toDigits (n := coefficient)
  have head := head_toDigits positive
  rw [digits] at areDigits value head ⊢
  let power : Int := (first :: rest).length - 1 + exponent
  let numeral : Numeral := {
    whole := [first]
    fraction := rest
    negativePower := power < 0
    power := Nat.toDigits 10 power.natAbs
    whole_ne_nil := List.cons_ne_nil _ _
    whole_digits := by simp [areDigits first List.mem_cons_self]
    fraction_digits := fun char member => areDigits char (List.mem_cons_of_mem _ member)
    power_digits := digits_toDigits _ }
  refine ⟨numeral, ?_, .inr Nat.toDigits_ne_nil, .inr head, congrArg Magnitude.word ?_⟩
  · cases rest <;>
      simp [numeral, Numeral.signedChars, Numeral.fractionChars, Numeral.signedPower, scientific, power,
        Nat.toDigits_ne_nil]
  · have powerValue : numeral.powerValue = power := by
      simp only [numeral, Numeral.powerValue, Nat.ofDigitChars_ten_toDigits, decide_eq_true_eq,
        Int.ofNat_eq_natCast]
      split <;> omega
    have exponentValue : numeral.powerValue - numeral.fraction.length = exponent := by
      rw [powerValue]
      simp only [power, numeral, List.length_cons]
      omega
    rw [Numeral.magnitude, exponentValue]
    exact congrArg (Magnitude.mk · exponent) value

/-- The text of a finite word is a numeral of a real, and the numeral reads back to the word. -/
theorem writes_magnitude (format : RealFormat) {word : Nat} (finite : word < Binary64.infinityWord) :
    ∃ numeral : Numeral, numeral.signedChars format.plusSign = format.magnitude word ∧
      numeral.IsReal ∧ numeral.NoLeadingZero ∧ numeral.magnitude.word = word := by
  by_cases zero : word = 0
  · obtain ⟨numeral, chars, isReal, noZero, value⟩ :=
      writes_integral format.plusSign 0 (.inr rfl)
    refine ⟨numeral, ?_, isReal, noZero, ?_⟩
    · rw [chars, magnitude, if_pos zero]
      rfl
    · rw [value, zero]
      rfl
  · have reads := Magnitude.word_shortest format.tie finite
    rw [magnitude, if_neg zero]
    generalize Magnitude.shortest format.tie word = shortest at reads
    obtain ⟨coefficient, exponent⟩ := shortest
    have positive : coefficient ≠ 0 := by
      rintro rfl
      exact zero (reads.symm.trans (by simp [Magnitude.word, Decimal.word]))
    dsimp only
    split
    · obtain ⟨numeral, chars, isReal, noZero, value⟩ :=
        writes_positional format.plusSign positive exponent
      exact ⟨numeral, chars, isReal, noZero, value.trans reads⟩
    · obtain ⟨numeral, chars, isReal, noZero, value⟩ :=
        writes_scientific format.plusSign positive exponent
      exact ⟨numeral, chars, isReal, noZero, value.trans reads⟩

end RealFormat

/-- The digits of a natural number as a numeral. -/
def naturalNumeral (number : Nat) : Numeral where
  whole := Nat.toDigits 10 number
  fraction := []
  negativePower := false
  power := []
  whole_ne_nil := Nat.toDigits_ne_nil
  whole_digits := RealFormat.digits_toDigits number
  fraction_digits := nofun
  power_digits := nofun

/-- The numeral of a natural number is its digits. -/
theorem chars_naturalNumeral (number : Nat) :
    (naturalNumeral number).chars = Nat.toDigits 10 number := by
  simp [naturalNumeral, Numeral.chars, Numeral.fractionChars, Numeral.powerChars]

/-- An integer is written as its sign and its digits. -/
theorem toList_toString (number : Int) :
    (toString number).toList = minusSign (number < 0) ++ Nat.toDigits 10 number.natAbs := by
  cases number with
  | ofNat number => exact Nat.toList_repr
  | negSucc number =>
    change ("-" ++ Nat.repr (number + 1)).toList = _
    rw [String.toList_append, Nat.toList_repr]
    simp [minusSign, Int.negSucc_lt_zero]

end TimedCommands
