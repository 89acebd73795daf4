import Mathlib.Algebra.Order.Ring.Nat
import Mathlib.Tactic.Ring
import TimedCommands.Number.Shortest

/-!
# Rounding to the grid

The word nearest to a quotient depends on its value only (`nearestWord_congr`), and a value on
the grid is nearest to itself (`nearestWord_units`). Reading a decimal rounds its exact value,
since the answers that are given without building the power of ten are those that rounding
would give (`word_eq_nearestWord`). So writing a decimal with another exponent does not change
the word that it reads back to (`word_congr`), and the shortest decimal of a word reads back to
that word (`word_shortest`). A number of few bits, times a power of two, is a real
(`Decimal.exists_toFloat_eq`).
-/

namespace TimedCommands

namespace Binary64

-- The library's own lemma writes the power with another instance. With the exponent 1074 the
-- two are only found equal by computing the power, so the instance is changed here, once.
/-- A shift to the left is a product with a power of two. -/
theorem shiftLeft_eq_mul (number places : Nat) : number <<< places = number * 2 ^ places :=
  Nat.shiftLeft_eq number places

/-- A quotient is rounded alike in lowest terms and out of them. -/
theorem divideToNearest_mul (numerator denominator : Nat) {factor : Nat} (positive : 0 < factor) :
    divideToNearest (numerator * factor) (denominator * factor) =
      divideToNearest numerator denominator := by
  have double (remainder : Nat) : 2 * (remainder * factor) = 2 * remainder * factor :=
    (Nat.mul_assoc _ _ _).symm
  simp only [divideToNearest, Nat.mul_div_mul_right _ _ positive, Nat.mul_mod_mul_right, double,
    Nat.mul_lt_mul_right positive]

/-- The word nearest to a quotient is the same in lowest terms and out of them. -/
theorem nearestWord_mul (numerator denominator : Nat) {factor : Nat} (positive : 0 < factor) :
    nearestWord (numerator * factor) (denominator * factor) = nearestWord numerator denominator := by
  have scale (number places : Nat) : number * factor * 2 ^ places = number * 2 ^ places * factor :=
    Nat.mul_right_comm _ _ _
  simp only [nearestWord, shiftLeft_eq_mul, scale, Nat.mul_div_mul_right _ _ positive,
    divideToNearest_mul _ _ positive]

/-- Equal quotients have the same nearest number. -/
theorem divideToNearest_congr {numerator denominator otherNumerator otherDenominator : Nat}
    (positive : 0 < denominator) (otherPositive : 0 < otherDenominator)
    (same : numerator * otherDenominator = otherNumerator * denominator) :
    divideToNearest numerator denominator = divideToNearest otherNumerator otherDenominator := by
  rw [← divideToNearest_mul numerator denominator otherPositive,
    ← divideToNearest_mul otherNumerator otherDenominator positive, same,
    Nat.mul_comm denominator otherDenominator]

/-- Equal quotients have the same nearest word. -/
theorem nearestWord_congr {numerator denominator otherNumerator otherDenominator : Nat}
    (positive : 0 < denominator) (otherPositive : 0 < otherDenominator)
    (same : numerator * otherDenominator = otherNumerator * denominator) :
    nearestWord numerator denominator = nearestWord otherNumerator otherDenominator := by
  rw [← nearestWord_mul numerator denominator otherPositive,
    ← nearestWord_mul otherNumerator otherDenominator positive, same,
    Nat.mul_comm denominator otherDenominator]

/-- Powers of two on both sides of a quotient count by their difference. -/
theorem nearestWord_two_pow (numerator : Nat) {denominator left right otherLeft otherRight : Nat}
    (positive : 0 < denominator) (same : left + otherRight = otherLeft + right) :
    nearestWord (numerator * 2 ^ left) (denominator * 2 ^ right) =
      nearestWord (numerator * 2 ^ otherLeft) (denominator * 2 ^ otherRight) := by
  apply nearestWord_congr
  · exact Nat.mul_pos positive (Nat.two_pow_pos _)
  · exact Nat.mul_pos positive (Nat.two_pow_pos _)
  · rw [Nat.mul_mul_mul_comm, Nat.mul_mul_mul_comm numerator (2 ^ otherLeft), ← Nat.pow_add,
      ← Nat.pow_add, same]

/-- Rounding goes down to the quotient, or up to the next number. -/
theorem divideToNearest_bounds (numerator denominator : Nat) :
    numerator / denominator ≤ divideToNearest numerator denominator ∧
      divideToNearest numerator denominator ≤ numerator / denominator + 1 := by
  rw [divideToNearest]
  split
  · omega
  · split <;> omega

/-- A quotient without a remainder is not rounded. -/
theorem divideToNearest_mul_self (quotient : Nat) {denominator : Nat} (positive : 0 < denominator) :
    divideToNearest (quotient * denominator) denominator = quotient := by
  simp [divideToNearest, Nat.mul_div_cancel _ positive, positive]

/-- A word is the count of its steps behind the words of all smaller steps. -/
theorem word_eq (word : Nat) : doublings word * wordsPerStep + significand word = word := by
  simp only [significand, doublings, wordsPerStep]
  omega

/-- Once the step has doubled, the significand takes up all of its bits. -/
theorem significand_of_doubled {word : Nat} (doubled : doublings word ≠ 0) :
    2 ^ 52 ≤ significand word ∧ significand word < 2 ^ 53 := by
  simp only [significand, doublings, wordsPerStep] at *
  omega

/-- Before the step has doubled, a significand fits 53 bits. -/
theorem significand_of_undoubled {word : Nat} (undoubled : doublings word = 0) :
    significand word < 2 ^ 53 := by
  simp only [significand, doublings, wordsPerStep] at *
  omega

/-- A word without an exponent counts the least steps. -/
theorem steps_of_lt {word : Nat} (least : word < 2 ^ 52) : significand word = word ∧ doublings word = 0 := by
  simp only [significand, doublings, wordsPerStep]
  omega

/-- A word with an exponent counts steps behind the ones of the exponent before. -/
theorem steps_of_le {word : Nat} (atLeast : 2 ^ 52 ≤ word) :
    significand word = 2 ^ 52 + word % 2 ^ 52 ∧ doublings word + 1 = word / 2 ^ 52 := by
  simp only [significand, doublings, wordsPerStep]
  omega

/-- A significand fits 53 bits. -/
theorem significand_lt (word : Nat) : significand word < 2 ^ 53 := by
  by_cases undoubled : doublings word = 0
  · exact significand_of_undoubled undoubled
  · exact (significand_of_doubled undoubled).2

/-- Once the step has doubled, a significand fills its 53 bits. -/
theorem undoubled_or_full (word : Nat) : doublings word = 0 ∨ 2 ^ 52 ≤ significand word :=
  or_iff_not_imp_left.mpr fun doubled => (significand_of_doubled doubled).1

/-- The units of a word are its significand, doubled so often. -/
theorem units_eq (word : Nat) : units word = significand word * 2 ^ doublings word :=
  shiftLeft_eq_mul _ _

/-- The size of the grid step at a word is found from the binary length of its units. -/
theorem log2_units (word : Nat) : (units word).log2 - 52 = doublings word := by
  rw [units, shiftLeft_eq_mul]
  by_cases undoubled : doublings word = 0
  · have small : (significand word).log2 < 53 ∨ significand word = 0 := by
      by_cases zero : significand word = 0
      · exact .inr zero
      · exact .inl ((Nat.log2_lt zero).mpr (significand_of_undoubled undoubled))
    rw [undoubled, Nat.pow_zero, Nat.mul_one]
    rcases small with small | zero
    · omega
    · simp [zero]
  · obtain ⟨atLeast, below⟩ := significand_of_doubled undoubled
    have length : (significand word * 2 ^ doublings word).log2 = 52 + doublings word := by
      have positive : 0 < 2 ^ doublings word := Nat.two_pow_pos _
      rw [Nat.log2_eq_iff (Nat.mul_ne_zero (by omega) (by omega)), Nat.pow_add,
        Nat.add_right_comm, Nat.pow_add]
      exact ⟨Nat.mul_le_mul_right _ atLeast, (Nat.mul_lt_mul_right positive).mpr below⟩
    omega

/-- A value on the grid is nearest to itself. -/
theorem nearestWord_units {word : Nat} (finite : word < infinityWord) :
    nearestWord (units word) (2 ^ 1074) = word := by
  have positive : 0 < 2 ^ 1074 := pow_pos two_pos 1074
  have step : (2 : Nat) ^ 1074 * 2 ^ doublings word = 2 ^ doublings word * 2 ^ 1074 :=
    Nat.mul_comm _ _
  have exactly : divideToNearest (units word * 2 ^ 1074) (2 ^ doublings word * 2 ^ 1074) =
      significand word := by
    rw [divideToNearest_mul _ _ positive, units, shiftLeft_eq_mul,
      divideToNearest_mul_self _ (Nat.two_pow_pos _)]
  rw [nearestWord]
  simp only [shiftLeft_eq_mul, Nat.mul_div_cancel _ positive, log2_units, step]
  rw [exactly, word_eq]
  omega

/-- A number that reaches a power of two is as long as that power. -/
theorem le_log2_of_two_pow_le {number places : Nat} (atLeast : 2 ^ places ≤ number) :
    places ≤ number.log2 :=
  (Nat.le_log2 (Nat.pos_iff_ne_zero.mp (Nat.lt_of_lt_of_le (Nat.two_pow_pos places) atLeast))).mpr
    atLeast

/-- A number below a power of two is shorter than that power. -/
theorem log2_lt_of_lt_two_pow {number places : Nat} (positive : 0 < places)
    (below : number < 2 ^ places) : number.log2 < places := by
  rcases Nat.eq_zero_or_pos number with rfl | some
  · rwa [Nat.log2_zero]
  · exact (Nat.log2_lt some.ne').mpr below

/-- A quotient below half of the least magnitude rounds to zero. -/
theorem nearestWord_eq_zero {numerator denominator : Nat}
    (tiny : numerator * 2 ^ 1075 < denominator) : nearestWord numerator denominator = 0 := by
  have half : 2 * (numerator * 2 ^ 1074) < denominator := by
    rwa [show 1075 = 1074 + 1 from rfl, pow_succ', Nat.mul_left_comm] at tiny
  have below : numerator * 2 ^ 1074 < denominator := by omega
  have noSteps : (numerator * 2 ^ 1074 / denominator).log2 - 52 = 0 := by
    rw [Nat.div_eq_of_lt below, Nat.log2_zero]
  have rounded : divideToNearest (numerator * 2 ^ 1074) denominator = 0 := by
    simp only [divideToNearest, Nat.div_eq_of_lt below, Nat.mod_eq_of_lt below, half, if_true]
  simp only [nearestWord, shiftLeft_eq_mul, noSteps, Nat.pow_zero, Nat.mul_one, rounded,
    Nat.zero_mul, Nat.zero_add, Nat.zero_min]

/-- Zero rounds to zero. -/
theorem nearestWord_zero {denominator : Nat} (positive : 0 < denominator) :
    nearestWord 0 denominator = 0 :=
  nearestWord_eq_zero (by rwa [Nat.zero_mul])

/-- A quotient beyond the largest magnitude rounds to infinity. -/
theorem nearestWord_eq_infinityWord {numerator denominator : Nat} (positive : 0 < denominator)
    (huge : denominator * 2 ^ 1025 ≤ numerator) :
    nearestWord numerator denominator = infinityWord := by
  have quotient : 2 ^ 2099 ≤ numerator * 2 ^ 1074 / denominator := by
    rw [Nat.le_div_iff_mul_le positive, show 2099 = 1025 + 1074 from rfl, pow_add,
      Nat.mul_right_comm, Nat.mul_comm _ denominator]
    exact Nat.mul_le_mul_right (2 ^ 1074) huge
  have length : 2099 ≤ (numerator * 2 ^ 1074 / denominator).log2 := le_log2_of_two_pow_le quotient
  simp only [nearestWord, shiftLeft_eq_mul, infinityWord, wordsPerStep]
  omega

/-- A number that is cut down to 53 bits fits them. -/
theorem div_two_pow_lt {number places : Nat} (length : number.log2 ≤ 52 + places) :
    number / 2 ^ places < 2 ^ 53 := by
  rw [Nat.div_lt_iff_lt_mul (Nat.two_pow_pos _), ← Nat.pow_add]
  exact Nat.lt_log2_self.trans_le (Nat.pow_le_pow_right (by decide) (by omega))

/-- A number that is cut down to 53 bits fills them, if it is cut no further. -/
theorem le_div_two_pow {number places : Nat} (length : number.log2 = 52 + places) :
    2 ^ 52 ≤ number / 2 ^ places := by
  have some : number ≠ 0 := by
    rintro rfl
    rw [Nat.log2_zero] at length
    omega
  rw [Nat.le_div_iff_mul_le (Nat.two_pow_pos _), ← Nat.pow_add, ← length]
  exact Nat.log2_self_le some

/-- A quotient far below the largest real is nearest to a finite one. -/
theorem nearestWord_lt_infinityWord {numerator denominator : Nat}
    (below : numerator < denominator * 2 ^ 1000) : nearestWord numerator denominator < infinityWord := by
  have positive : 0 < denominator := Nat.pos_of_mul_pos_right (Nat.zero_lt_of_lt below)
  have quotient : numerator * 2 ^ 1074 / denominator < 2 ^ 2074 := by
    rw [Nat.div_lt_iff_lt_mul positive, show 2074 = 1000 + 1074 from rfl, pow_add,
      Nat.mul_comm _ denominator, ← Nat.mul_assoc]
    exact (Nat.mul_lt_mul_right (pow_pos two_pos 1074)).mpr below
  let steps := (numerator * 2 ^ 1074 / denominator).log2 - 52
  have few : (numerator * 2 ^ 1074 / denominator).log2 < 2074 :=
    log2_lt_of_lt_two_pow (by decide) quotient
  have rounded : divideToNearest (numerator * 2 ^ 1074) (denominator * 2 ^ steps) ≤ 2 ^ 53 := by
    have bounds := divideToNearest_bounds (numerator * 2 ^ 1074) (denominator * 2 ^ steps)
    have short : numerator * 2 ^ 1074 / denominator / 2 ^ steps < 2 ^ 53 := div_two_pow_lt (by omega)
    rw [← Nat.div_div_eq_div_mul] at bounds
    omega
  rw [nearestWord, shiftLeft_eq_mul, shiftLeft_eq_mul]
  change min (steps * wordsPerStep + divideToNearest _ (denominator * 2 ^ steps)) infinityWord < infinityWord
  rw [wordsPerStep, infinityWord]
  omega

/-- A number of few bits is on the grid, and so are its products with powers of two. -/
theorem exists_units {number places : Nat} (few : number < 2 ^ 53) (within : places ≤ 900) :
    ∃ word < infinityWord, units word = number * 2 ^ places * 2 ^ 1074 := by
  rcases Nat.eq_zero_or_pos number with rfl | some
  · exact ⟨0, by decide, by rw [Nat.zero_mul, Nat.zero_mul]; rfl⟩
  have long : number.log2 < 53 := (Nat.log2_lt some.ne').mpr few
  let steps := number * 2 ^ (52 - number.log2)
  have atLeast : 2 ^ 52 ≤ steps := by
    calc 2 ^ 52 = 2 ^ number.log2 * 2 ^ (52 - number.log2) := by rw [← Nat.pow_add]; congr 1; omega
      _ ≤ steps := Nat.mul_le_mul_right _ (Nat.log2_self_le some.ne')
  have below : steps < 2 ^ 53 := by
    calc steps < 2 ^ (number.log2 + 1) * 2 ^ (52 - number.log2) :=
          (Nat.mul_lt_mul_right (Nat.two_pow_pos _)).mpr Nat.lt_log2_self
      _ = 2 ^ 53 := by rw [← Nat.pow_add]; congr 1; omega
  let doubled := places + 1022 + number.log2
  have isDoubled : doublings (doubled * wordsPerStep + steps) = doubled := by
    rw [doublings, wordsPerStep]
    omega
  have isSteps : significand (doubled * wordsPerStep + steps) = steps := by
    rw [significand, isDoubled, Nat.add_sub_cancel_left]
  refine ⟨doubled * wordsPerStep + steps, ?_, ?_⟩
  · rw [wordsPerStep, infinityWord]
    omega
  · rw [units_eq, isDoubled, isSteps, Nat.mul_assoc, Nat.mul_assoc, ← Nat.pow_add, ← Nat.pow_add]
    congr 2
    omega

end Binary64

namespace Decimal

/-- Powers compare as their exponents do, in the ratio of two powers that are comparable. -/
theorem pow_le_pow_of_ratio {base other least most power otherPower : Nat}
    (ratio : base ^ most ≤ other ^ least) (positive : 0 < most) (otherPositive : 0 < other)
    (within : least * power ≤ most * otherPower) : base ^ power ≤ other ^ otherPower := by
  rw [← Nat.pow_le_pow_iff_left (Nat.pos_iff_ne_zero.mp positive)]
  calc (base ^ power) ^ most = (base ^ most) ^ power := by
        rw [← Nat.pow_mul, ← Nat.pow_mul, Nat.mul_comm]
    _ ≤ (other ^ least) ^ power := Nat.pow_le_pow_left ratio power
    _ = other ^ (least * power) := (Nat.pow_mul _ _ _).symm
    _ ≤ other ^ (most * otherPower) := Nat.pow_le_pow_right otherPositive within
    _ = (other ^ otherPower) ^ most := by rw [← Nat.pow_mul, Nat.mul_comm]

/-- The digits of a number are counted from below by its binary length: 30102 to 100000. -/
theorem ten_pow_le_two_pow : 10 ^ 30102 ≤ 2 ^ 100000 := by decide +kernel

/-- The digits of a number are counted from above by its binary length: 30103 to 100000. -/
theorem two_pow_le_ten_pow : 2 ^ 100000 ≤ 10 ^ 30103 := by decide +kernel

/-- A number reaches the power of ten that is estimated for it from below. -/
theorem ten_pow_reachedPower_le {number : Nat} (positive : number ≠ 0) :
    10 ^ reachedPower number ≤ number := by
  refine Nat.le_trans (pow_le_pow_of_ratio ten_pow_le_two_pow (by omega) (by omega) ?_)
    (Nat.log2_self_le positive)
  rw [reachedPower, Nat.mul_comm 30102]
  exact Nat.mul_div_le (number.log2 * 30102) 100000

/-- A number stays below the power of ten that is estimated for it from above. -/
theorem lt_ten_pow_unreachedPower (number : Nat) : number < 10 ^ unreachedPower number := by
  refine Nat.lt_of_lt_of_le Nat.lt_log2_self
    (pow_le_pow_of_ratio two_pow_le_ten_pow (by omega) (by omega) ?_)
  rw [unreachedPower]
  omega

/-- The numerator of the exact magnitude of a decimal. -/
def numerator (decimal : Decimal) : Nat := decimal.coefficient * 10 ^ decimal.exponent.toNat

/-- The denominator of the exact magnitude of a decimal. -/
def denominator (decimal : Decimal) : Nat := 10 ^ (-decimal.exponent).toNat

/-- The denominator of a decimal is positive. -/
theorem denominator_pos (decimal : Decimal) : 0 < decimal.denominator :=
  Nat.pow_pos (by decide)

/-- A decimal below the smallest power of ten that is looked at rounds to zero. -/
theorem nearestWord_of_tiny {decimal : Decimal}
    (tiny : unreachedPower decimal.coefficient + decimal.exponent < smallestPower) :
    Binary64.nearestWord decimal.numerator decimal.denominator = 0 := by
  apply Binary64.nearestWord_eq_zero
  rw [smallestPower] at tiny
  have noPower : decimal.exponent.toNat = 0 := by omega
  have least : (2 : Nat) ^ 1075 ≤ 10 ^ 330 := by decide +kernel
  rw [numerator, denominator, noPower, Nat.pow_zero, Nat.mul_one]
  calc decimal.coefficient * 2 ^ 1075
      < 10 ^ unreachedPower decimal.coefficient * 2 ^ 1075 :=
        (Nat.mul_lt_mul_right (pow_pos two_pos 1075)).mpr (lt_ten_pow_unreachedPower _)
    _ ≤ 10 ^ unreachedPower decimal.coefficient * 10 ^ 330 := Nat.mul_le_mul_left _ least
    _ = 10 ^ (unreachedPower decimal.coefficient + 330) := (pow_add _ _ _).symm
    _ ≤ 10 ^ (-decimal.exponent).toNat := Nat.pow_le_pow_right (by decide) (by omega)

/-- A decimal above the largest power of ten that is looked at rounds to infinity. -/
theorem nearestWord_of_huge {decimal : Decimal} (positive : decimal.coefficient ≠ 0)
    (huge : largestPower < reachedPower decimal.coefficient + decimal.exponent) :
    Binary64.nearestWord decimal.numerator decimal.denominator = Binary64.infinityWord := by
  apply Binary64.nearestWord_eq_infinityWord decimal.denominator_pos
  rw [largestPower] at huge
  have most : (2 : Nat) ^ 1025 ≤ 10 ^ 310 := by decide +kernel
  rw [numerator, denominator]
  calc 10 ^ (-decimal.exponent).toNat * 2 ^ 1025
      ≤ 10 ^ (-decimal.exponent).toNat * 10 ^ 310 := Nat.mul_le_mul_left _ most
    _ = 10 ^ ((-decimal.exponent).toNat + 310) := (pow_add _ _ _).symm
    _ ≤ 10 ^ (reachedPower decimal.coefficient + decimal.exponent.toNat) :=
        Nat.pow_le_pow_right (by decide) (by omega)
    _ = 10 ^ reachedPower decimal.coefficient * 10 ^ decimal.exponent.toNat := Nat.pow_add _ _ _
    _ ≤ decimal.coefficient * 10 ^ decimal.exponent.toNat :=
        Nat.mul_le_mul_right _ (ten_pow_reachedPower_le positive)

/-- The word of a decimal is the one nearest to its exact magnitude, the powers of ten that
are never built included. -/
theorem word_eq_nearestWord (decimal : Decimal) :
    decimal.word = Binary64.nearestWord decimal.numerator decimal.denominator := by
  obtain ⟨negative, coefficient, exponent⟩ := decimal
  rw [word]
  split
  case isTrue tiny =>
    rcases Bool.or_eq_true_iff.mp tiny with zero | tiny
    · have noMagnitude : coefficient = 0 := of_decide_eq_true zero
      rw [numerator, noMagnitude, Nat.zero_mul, Binary64.nearestWord_zero (denominator_pos _)]
    · exact (nearestWord_of_tiny (of_decide_eq_true tiny)).symm
  case isFalse notTiny =>
    split
    case isTrue huge =>
      refine (nearestWord_of_huge (fun zero => notTiny ?_) huge).symm
      simp [show coefficient = 0 from zero]
    case isFalse =>
      cases exponent with
      | ofNat power => simp [numerator, denominator]
      | negSucc power => simp [numerator, denominator, Int.neg_negSucc]

/-- Decimals of one magnitude have one word. -/
theorem word_congr {decimal other : Decimal}
    (same : decimal.numerator * other.denominator = other.numerator * decimal.denominator) :
    decimal.word = other.word := by
  rw [word_eq_nearestWord, word_eq_nearestWord]
  exact Binary64.nearestWord_congr decimal.denominator_pos other.denominator_pos same

/-- Zeros at the end of the coefficient may as well stand in the exponent. -/
theorem word_shift (negative other : Bool) (coefficient places : Nat) (exponent : Int) :
    word ⟨negative, coefficient * 10 ^ places, exponent⟩ =
      word ⟨other, coefficient, exponent + places⟩ := by
  apply word_congr
  simp only [numerator, denominator, Nat.mul_assoc, ← Nat.pow_add]
  congr 2
  omega

/-- A multiple of a binary fraction is a decimal. -/
theorem word_of_binary (negative : Bool) (numerator places : Nat) :
    word ⟨negative, numerator * 5 ^ places, -places⟩ =
      Binary64.nearestWord numerator (2 ^ places) := by
  rw [word_eq_nearestWord]
  apply Binary64.nearestWord_congr (denominator_pos _) (Nat.two_pow_pos _)
  have noPower : (-(places : Int)).toNat = 0 := by omega
  simp only [Decimal.numerator, denominator, noPower, Int.neg_neg, Int.toNat_natCast, Nat.pow_zero,
    Nat.mul_one, Nat.mul_assoc, ← Nat.mul_pow]

/-- A decimal that is a number of few bits times a power of two is a real. -/
theorem exists_toFloat_eq (decimal : Decimal) {number places : Nat} (few : number < 2 ^ 53)
    (within : places ≤ 900) (value : decimal.numerator = number * 2 ^ places * decimal.denominator) :
    ∃ word < Binary64.infinityWord, Binary64.units word = number * 2 ^ places * 2 ^ 1074 ∧
      decimal.toFloat = Binary64.ofMagnitude decimal.negative word := by
  obtain ⟨word, finite, units⟩ := Binary64.exists_units few within
  refine ⟨word, finite, units, ?_⟩
  rw [toFloat, word_eq_nearestWord, ← Binary64.nearestWord_units finite, units]
  refine congrArg (Binary64.ofMagnitude _) (Binary64.nearestWord_congr decimal.denominator_pos
    (pow_pos two_pos _) ?_)
  rw [value]
  exact Nat.mul_right_comm _ _ _

end Decimal

namespace Magnitude

/-- The exact expansion of a word reads back to it. -/
theorem word_exact {word : Nat} (finite : word < Binary64.infinityWord) :
    (exact word).word = word := by
  have exponent : (-1074 : Int) = -(1074 : Nat) := rfl
  have nearest := Binary64.nearestWord_units finite
  rw [exact, exactUnits, exponent]
  generalize 1074 = places at nearest ⊢
  exact (Decimal.word_of_binary false (Binary64.units word) places).trans nearest

/-- What is found on a grid reads back to the word. -/
theorem word_of_onGrid {tie : TieRule} {word units dropped : Nat} {found : Magnitude}
    (isFound : onGrid? tie word units dropped = some found) : found.word = word := by
  simp only [onGrid?] at isFound
  grind

/-- What the search finds reads back to the word. -/
theorem word_of_search {tie : TieRule} {word units size grids digits : Nat} {found : Magnitude}
    (isFound : search tie word units size grids digits = some found) : found.word = word := by
  induction grids generalizing digits with
  | zero => cases isFound
  | succ grids ih =>
    rw [search] at isFound
    cases onGrid : onGrid? tie word units (size - digits) with
    | some nearest =>
      rw [onGrid] at isFound
      cases isFound
      exact word_of_onGrid onGrid
    | none =>
      rw [onGrid] at isFound
      exact ih isFound

/-- Zeros may be moved from the coefficient into the exponent. -/
theorem word_stripZeros (limit : Nat) (magnitude : Magnitude) :
    (stripZeros limit magnitude).word = magnitude.word := by
  induction limit generalizing magnitude with
  | zero => rfl
  | succ limit ih =>
    rw [stripZeros]
    split
    case isFalse => rfl
    case isTrue endsInZero =>
      rw [ih]
      have tenfold : magnitude.coefficient / 10 * 10 ^ 1 = magnitude.coefficient := by omega
      have shifted := Decimal.word_shift false false (magnitude.coefficient / 10) 1
        magnitude.exponent
      rw [tenfold] at shifted
      exact shifted.symm

/-- The shortest decimal of a finite word reads back to it. -/
theorem word_shortest (tie : TieRule) {word : Nat} (finite : word < Binary64.infinityWord) :
    (shortest tie word).word = word := by
  rw [shortest, word_stripZeros]
  cases isFound : search tie word (exactUnits word) (Decimal.digitCount (exactUnits word)) 17 1 with
  | some found => exact word_of_search isFound
  | none => exact word_exact finite

end Magnitude

end TimedCommands
