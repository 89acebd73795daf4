import TimedCommands.Proofs.Number.Parts

/-!
# Products and quotients of reals

Shifting a quotient of natural numbers to the right keeps of what is shifted out whether it is nothing,
less than a half, a half or more (`Binary64.shiftRight_extended`). So rounding it to the steps that fit
its size is rounding the exact quotient once (`Binary64.ofModel_roundWithAccuracy`), and the product and
the quotient of two finite reals are the reals nearest to the exact ones (`Binary64.mul_ofMagnitude`,
`Binary64.div_ofMagnitude`).
-/

namespace TimedCommands.Binary64

open Float.Model Float.Model.UnpackedFloat

/-- A quotient as its whole part, whether what is left is a half or more, and whether it is neither
nothing nor a half. -/
def extended (numerator denominator : Nat) : ExtendedMantissa where
  mantissa := numerator / denominator
  roundBit := denominator ≤ 2 * (numerator % denominator)
  stickyBit := numerator % denominator ≠ 0 ∧ 2 * (numerator % denominator) ≠ denominator

section Quotients

variable (numerator : Nat) {denominator : Nat} (positive : 0 < denominator)

include positive in
/-- A quotient with the accuracy of its remainder is an extended mantissa. -/
theorem ofMantissaAndAccuracy_quotient :
    ExtendedMantissa.ofMantissaAndAccuracy (numerator / denominator)
      (accuracyOfFraction (numerator % denominator) denominator) = extended numerator denominator := by
  rw [accuracyOfFraction, extended]
  split
  case isTrue nothing => simp [ExtendedMantissa.ofMantissaAndAccuracy, nothing, positive.ne']
  case isFalse some =>
    cases order : compare (2 * (numerator % denominator)) denominator with
    | lt =>
      have less := Nat.compare_eq_lt.mp order
      simp [ExtendedMantissa.ofMantissaAndAccuracy, some, less.ne, less]
    | eq =>
      have same := Nat.compare_eq_eq.mp order
      simp [ExtendedMantissa.ofMantissaAndAccuracy, same]
    | gt =>
      have more := Nat.compare_eq_gt.mp order
      simp [ExtendedMantissa.ofMantissaAndAccuracy, some, more.ne', more.le]

include positive in
/-- Half of a quotient is the quotient by twice the denominator. -/
theorem shiftRightOne_extended :
    (extended numerator denominator).shiftRightOne = extended numerator (denominator * 2) := by
  have below : numerator % denominator < denominator := Nat.mod_lt _ positive
  have whole : numerator / (denominator * 2) = numerator / denominator / 2 :=
    (Nat.div_div_eq_div_mul ..).symm
  have remainder : numerator % (denominator * 2) =
      numerator % denominator + denominator * (numerator / denominator % 2) := Nat.mod_mul
  rw [ExtendedMantissa.shiftRightOne, extended, extended, whole, remainder]
  generalize numerator % denominator = left at below
  rw [ExtendedMantissa.mk.injEq]
  refine ⟨rfl, ?_, ?_⟩ <;> rw [Bool.eq_iff_iff] <;>
    rcases Nat.mod_two_eq_zero_or_one (numerator / denominator) with even | odd
  · simp [even]
    omega
  · simp [odd]
    omega
  · simp [even]
    omega
  · simp [odd]
    omega

include positive in
/-- Shifting an extended mantissa to the right divides the quotient further. -/
theorem shiftRight_extended (places : Nat) :
    extended numerator denominator >>> places = extended numerator (denominator * 2 ^ places) := by
  change Nat.repeat ExtendedMantissa.shiftRightOne places (extended numerator denominator) = _
  induction places with
  | zero => rw [Nat.pow_zero, Nat.mul_one, Nat.repeat]
  | succ places ih =>
    have still : 0 < denominator * 2 ^ places := Nat.mul_pos positive (Nat.two_pow_pos _)
    rw [Nat.repeat, ih, shiftRightOne_extended numerator still, Nat.mul_assoc, Nat.pow_succ]

/-- An extended mantissa is rounded as its quotient is. -/
theorem roundedMantissa_extended :
    (extended numerator denominator).roundedMantissa = divideToNearest numerator denominator := by
  rw [ExtendedMantissa.roundedMantissa, extended, divideToNearest]
  dsimp only
  rcases Nat.lt_trichotomy (2 * (numerator % denominator)) denominator with less | same | more
  · rw [if_pos less]
    have noHalf : ¬ denominator ≤ 2 * (numerator % denominator) := less.not_ge
    by_cases nothing : numerator % denominator = 0
    · have some : denominator ≠ 0 := by omega
      simp [ExtendedMantissa.accuracy, Accuracy.roundToNearestEven, nothing, some]
    · simp [ExtendedMantissa.accuracy, Accuracy.roundToNearestEven, nothing, noHalf, less.ne]
  · rw [if_neg same.not_lt, if_neg same.not_gt]
    simp [ExtendedMantissa.accuracy, Accuracy.roundToNearestEven, same]
  · rw [if_neg more.le.not_gt, if_pos more]
    have some : numerator % denominator ≠ 0 := by omega
    simp [ExtendedMantissa.accuracy, Accuracy.roundToNearestEven, some, more.ne', more.le]

end Quotients

/-- The exponent that a mantissa is brought to leaves 53 bits, or is the least there is. -/
theorem targetExponent_eq (mantissa : Nat) (exponent : Int) :
    Format.binary64.targetExponent (totalExponent mantissa exponent) =
      max (mantissa.log2 + exponent - 52) (-1074) := by
  simp only [Format.targetExponent, totalExponent, Format.mantissaBits, Format.minExponent]
  omega

/-- A number of steps that fits needs no other exponent. -/
theorem shiftToTargetExponent_of_lt {steps : Nat} (fits : steps < 2 ^ 53) {exponent : Int}
    (least : -1074 ≤ exponent) :
    shiftToTargetExponent Format.binary64 steps exponent .exact = (⟨steps, false, false⟩, exponent) := by
  have length : steps.log2 ≤ 52 := by
    by_cases nothing : steps = 0
    · simp [nothing]
    · have := (Nat.log2_lt nothing).mpr fits
      omega
  have stays : (max (steps.log2 + exponent - 52) (-1074) - exponent).toNat = 0 := by omega
  rw [shiftToTargetExponent, targetExponent_eq, shiftToExponent, stays]
  simp [ExtendedMantissa.ofMantissaAndAccuracy, HShiftRight.hShiftRight, Nat.repeat]

/-- One step more than fits is half as many steps of twice the size. -/
theorem shiftToTargetExponent_carry {exponent : Int} (least : -1074 ≤ exponent) :
    shiftToTargetExponent Format.binary64 (2 ^ 53) exponent .exact =
      (⟨2 ^ 52, false, false⟩, exponent + 1) := by
  have once : (max (((2 ^ 53 : Nat).log2 : Int) + exponent - 52) (-1074) - exponent).toNat = 1 := by
    rw [Nat.log2_two_pow]
    omega
  rw [shiftToTargetExponent, targetExponent_eq, shiftToExponent, once]
  simp [ExtendedMantissa.ofMantissaAndAccuracy, ExtendedMantissa.shiftRightOne, HShiftRight.hShiftRight,
    Nat.repeat]

/-- Rounding brings a mantissa to its exponent, rounds it and sees to a carry. -/
theorem roundWithAccuracy_eq (negative : Bool) (mantissa : Nat) (exponent : Int) (accuracy : Accuracy) :
    roundWithAccuracy Format.binary64 (signOf negative) mantissa exponent accuracy =
      let first := shiftToTargetExponent Format.binary64 mantissa exponent accuracy
      let second := shiftToTargetExponent Format.binary64 first.1.roundedMantissa first.2 .exact
      partsOf negative second.1.mantissa second.2 := by
  rw [roundWithAccuracy]
  dsimp only
  split
  case isTrue nothing => rw [partsOf, dif_neg (by omega)]
  case isFalse some => rw [partsOf, dif_pos (Nat.pos_of_ne_zero some)]

/-- A quotient that is not too coarse for the steps it is brought to is rounded to them once. The
steps may come out as half as many of twice the size. -/
theorem roundWithAccuracy_quotient (negative : Bool) (numerator : Nat) {denominator : Nat}
    (positive : 0 < denominator) {exponent : Int} {doubled places : Nat}
    (step : doubled = ((numerator / denominator).log2 + exponent + 1022).toNat)
    (placed : exponent + places = doubled - 1074) :
    ∃ steps more : Nat,
      roundWithAccuracy Format.binary64 (signOf negative) (numerator / denominator) exponent
        (accuracyOfFraction (numerator % denominator) denominator) =
          partsOf negative steps (more - 1074) ∧
      more * wordsPerStep + steps =
        doubled * wordsPerStep + divideToNearest numerator (denominator * 2 ^ places) ∧
      steps < 2 ^ 53 ∧ (more = 0 ∨ 2 ^ 52 ≤ steps) := by
  have shifted : shiftToTargetExponent Format.binary64 (numerator / denominator) exponent
      (accuracyOfFraction (numerator % denominator) denominator) =
        (extended numerator (denominator * 2 ^ places), (doubled : Int) - 1074) := by
    have target : (max ((numerator / denominator).log2 + exponent - 52) (-1074) - exponent).toNat =
        places := by omega
    rw [shiftToTargetExponent, targetExponent_eq, shiftToExponent, target,
      ofMantissaAndAccuracy_quotient numerator positive, shiftRight_extended numerator positive, placed]
  have bounds := divideToNearest_bounds numerator (denominator * 2 ^ places)
  rw [← Nat.div_div_eq_div_mul] at bounds
  have short : numerator / denominator / 2 ^ places < 2 ^ 53 := div_two_pow_lt (by omega)
  have normal : doubled ≠ 0 → 2 ^ 52 ≤ numerator / denominator / 2 ^ places :=
    fun some => le_div_two_pow (by omega)
  rw [roundWithAccuracy_eq, shifted]
  simp only [roundedMantissa_extended]
  generalize divideToNearest numerator (denominator * 2 ^ places) = rounded at bounds
  rcases Nat.lt_or_ge rounded (2 ^ 53) with fits | carries
  · rw [shiftToTargetExponent_of_lt fits (by omega)]
    exact ⟨rounded, doubled, rfl, rfl, fits, by omega⟩
  · obtain rfl : rounded = 2 ^ 53 := by omega
    rw [shiftToTargetExponent_carry (by omega)]
    refine ⟨2 ^ 52, doubled + 1, ?_, ?_, by decide, .inr le_rfl⟩
    · have exponent : ((doubled + 1 : Nat) : Int) - 1074 = (doubled : Int) - 1074 + 1 := by omega
      rw [exponent]
    · rw [wordsPerStep]
      omega

/-- Dividing by a power of two takes so many digits from a binary length. -/
theorem log2_div_two_pow (number places : Nat) : (number / 2 ^ places).log2 = number.log2 - places := by
  rw [Nat.log2_eq_log_two, Nat.log2_eq_log_two, Nat.log_div_base_pow]

/-- The size of the steps for a quotient is told from its binary length in any steps that are not too
coarse. -/
theorem doublings_of_quotient {numerator denominator : Nat} {exponent : Int}
    (fine : 2 ^ 52 ≤ numerator / denominator ∨ exponent ≤ -1074) :
    (numerator * 2 ^ exponent.toNat * 2 ^ 1074 / (denominator * 2 ^ (-exponent).toNat)).log2 - 52 =
      ((numerator / denominator).log2 + exponent + 1022).toNat := by
  by_cases least : exponent ≤ -1074
  · obtain ⟨places, rfl⟩ : ∃ places : Nat, exponent = -((places + 1074 : Nat) : Int) :=
      ⟨(-1074 - exponent).toNat, by omega⟩
    have noLeft : (-((places + 1074 : Nat) : Int)).toNat = 0 := by omega
    rw [noLeft, Int.neg_neg, Int.toNat_natCast, Nat.pow_zero, Nat.mul_one, Nat.pow_add, ← Nat.mul_assoc,
      Nat.mul_div_mul_right _ _ (Nat.two_pow_pos 1074), ← Nat.div_div_eq_div_mul, log2_div_two_pow]
    omega
  · have full : 2 ^ 52 ≤ numerator / denominator := fine.resolve_right least
    have long : 52 ≤ (numerator / denominator).log2 := (Nat.le_log2 (by omega)).mpr full
    have places : exponent.toNat + 1074 = (-exponent).toNat + (exponent + 1074).toNat := by omega
    have coarser : numerator * 2 ^ exponent.toNat * 2 ^ 1074 / (denominator * 2 ^ (-exponent).toNat) /
        2 ^ (exponent + 1074).toNat = numerator / denominator := by
      rw [Nat.div_div_eq_div_mul, Nat.mul_assoc, Nat.mul_assoc, ← Nat.pow_add, ← Nat.pow_add, places,
        Nat.mul_div_mul_right _ _ (Nat.two_pow_pos _)]
    rw [← coarser, log2_div_two_pow] at long ⊢
    omega

/-- The exact value of a quotient in steps is rounded to the word nearest to it. -/
theorem ofModel_roundWithAccuracy (negative : Bool) (numerator : Nat) {denominator : Nat}
    (positive : 0 < denominator) {exponent : Int}
    (fine : 2 ^ 52 ≤ numerator / denominator ∨ exponent ≤ -1074) :
    Float.ofModel (.pack (roundWithAccuracy Format.binary64 (signOf negative) (numerator / denominator)
      exponent (accuracyOfFraction (numerator % denominator) denominator))) =
      ofMagnitude negative
        (nearestWord (numerator * 2 ^ exponent.toNat) (denominator * 2 ^ (-exponent).toNat)) := by
  let doubled := ((numerator / denominator).log2 + exponent + 1022).toNat
  have isDoubled := doublings_of_quotient fine
  obtain ⟨places, placed⟩ : ∃ places : Nat, exponent + places = (doubled : Int) - 1074 := by
    refine ⟨(doubled - 1074 - exponent).toNat, ?_⟩
    rcases fine with full | least
    · have long : 52 ≤ (numerator / denominator).log2 := (Nat.le_log2 (by omega)).mpr full
      omega
    · omega
  obtain ⟨steps, more, rounded, word, fits, normal⟩ :=
    roundWithAccuracy_quotient negative numerator positive rfl placed
  have sameQuotient : divideToNearest (numerator * 2 ^ exponent.toNat * 2 ^ 1074)
      (denominator * 2 ^ (-exponent).toNat * 2 ^ doubled) =
        divideToNearest numerator (denominator * 2 ^ places) := by
    have powers : 2 ^ exponent.toNat * 2 ^ 1074 * 2 ^ places =
        2 ^ (-exponent).toNat * 2 ^ doubled := by
      rw [← Nat.pow_add, ← Nat.pow_add, ← Nat.pow_add]
      congr 1
      omega
    apply divideToNearest_congr
    · exact Nat.mul_pos (Nat.mul_pos positive (Nat.two_pow_pos _)) (Nat.two_pow_pos _)
    · exact Nat.mul_pos positive (Nat.two_pow_pos _)
    · rw [Nat.mul_assoc numerator, Nat.mul_mul_mul_comm, powers, Nat.mul_assoc denominator,
        ← Nat.mul_assoc numerator]
  rw [rounded, ofModel_pack_partsOf negative fits normal, word, nearestWord]
  simp only [shiftLeft_eq_mul, isDoubled]
  rw [sameQuotient]

/-- A product is negative if one of its factors is. -/
theorem signOf_mul (negative other : Bool) :
    signOf negative * signOf other = signOf (negative ^^ other) := by
  cases negative <;> cases other <;> rfl

/-- A quotient is negative if one of its parts is. -/
theorem signOf_div (negative other : Bool) :
    signOf negative / signOf other = signOf (negative ^^ other) := by
  cases negative <;> cases other <;> rfl

/-- A whole number is exact. -/
theorem accuracyOfFraction_one (number : Nat) : accuracyOfFraction (number % 1) 1 = .exact := by
  rw [Nat.mod_one]
  rfl

/-- A zero is the magnitude zero with its sign. -/
theorem ofModel_pack_zero (negative : Bool) :
    Float.ofModel (.pack (.zero (signOf negative))) = ofMagnitude negative 0 :=
  eq_ofMagnitude (toNat_packComponents negative 0 0)

/-- An exact number of steps is rounded to the word nearest to it. -/
theorem ofModel_roundWithAccuracy_exact (negative : Bool) (steps : Nat) {exponent : Int}
    (fine : 2 ^ 52 ≤ steps ∨ exponent ≤ -1074) :
    Float.ofModel (.pack (roundWithAccuracy Format.binary64 (signOf negative) steps exponent .exact)) =
      ofMagnitude negative (nearestWord (steps * 2 ^ exponent.toNat) (1 * 2 ^ (-exponent).toNat)) := by
  rw [← Nat.div_one steps] at fine
  have rounded := ofModel_roundWithAccuracy negative steps Nat.one_pos fine
  rwa [accuracyOfFraction_one, Nat.div_one] at rounded

section Operations

variable (negative other : Bool) {steps otherSteps : Nat} (exponent otherExponent : Int)

/-- A product with a zero is a zero. -/
theorem mul_partsOf_of_zero (nothing : steps * otherSteps = 0) :
    UnpackedFloat.mul Format.binary64 (partsOf negative steps exponent)
      (partsOf other otherSteps otherExponent) = .zero (signOf (negative ^^ other)) := by
  rw [← signOf_mul, partsOf, partsOf]
  rcases Nat.eq_zero_or_pos steps with rfl | some
  · rw [dif_neg (Nat.lt_irrefl 0)]
    split <;> rfl
  · obtain rfl : otherSteps = 0 := (Nat.mul_eq_zero.mp nothing).resolve_left some.ne'
    rw [dif_pos some, dif_neg (Nat.lt_irrefl 0), UnpackedFloat.mul]

/-- The significands of a product are multiplied exactly, and rounded once. -/
theorem mul_partsOf_of_pos (some : 0 < steps) (otherSome : 0 < otherSteps) :
    UnpackedFloat.mul Format.binary64 (partsOf negative steps exponent)
      (partsOf other otherSteps otherExponent) =
        roundWithAccuracy Format.binary64 (signOf (negative ^^ other)) (steps * otherSteps)
          (exponent + otherExponent) .exact := by
  rw [← signOf_mul, partsOf, partsOf, dif_pos some, dif_pos otherSome, UnpackedFloat.mul]

/-- Zero divided by what is no zero is zero. -/
theorem div_partsOf_zero (otherSome : 0 < otherSteps) :
    UnpackedFloat.div Format.binary64 (partsOf negative 0 exponent)
      (partsOf other otherSteps otherExponent) = .zero (signOf (negative ^^ other)) := by
  rw [← signOf_div, partsOf, partsOf, dif_neg (Nat.lt_irrefl 0), dif_pos otherSome, UnpackedFloat.div]

/-- A quotient of steps is taken in steps that are not too coarse for it. -/
theorem div_partsOf_of_pos (some : 0 < steps) (otherSome : 0 < otherSteps) :
    ∃ (places : Nat) (finer : Int), exponent - otherExponent = finer + places ∧
      (2 ^ 52 ≤ steps * 2 ^ places / otherSteps ∨ finer ≤ -1074) ∧
      UnpackedFloat.div Format.binary64 (partsOf negative steps exponent)
        (partsOf other otherSteps otherExponent) =
          roundWithAccuracy Format.binary64 (signOf (negative ^^ other)) (steps * 2 ^ places / otherSteps)
            finer (accuracyOfFraction (steps * 2 ^ places % otherSteps) otherSteps) := by
  let finer : Int := min (exponent - otherExponent)
    (max ((steps.log2 : Int) - otherSteps.log2 + (exponent - otherExponent) - 53) (-1074))
  let places : Nat := (exponent - otherExponent - finer).toNat
  refine ⟨places, finer, by omega, ?_, ?_⟩
  · by_cases least : finer ≤ -1074
    · exact .inr least
    · left
      have long : otherSteps.log2 + 53 ≤ steps.log2 + places := by omega
      rw [Nat.le_div_iff_mul_le otherSome]
      calc 2 ^ 52 * otherSteps ≤ 2 ^ 52 * 2 ^ (otherSteps.log2 + 1) :=
            Nat.mul_le_mul_left _ Nat.lt_log2_self.le
        _ = 2 ^ (otherSteps.log2 + 53) := by rw [← Nat.pow_add]; congr 1; omega
        _ ≤ 2 ^ (steps.log2 + places) := Nat.pow_le_pow_right (by decide) long
        _ ≤ steps * 2 ^ places := by
          rw [Nat.pow_add]
          exact Nat.mul_le_mul_right _ (Nat.log2_self_le some.ne')
  · have core : divCore Format.binary64 steps exponent otherSteps otherExponent =
        (steps * 2 ^ places / otherSteps, finer,
          accuracyOfFraction (steps * 2 ^ places % otherSteps) otherSteps) := by
      have target : Format.binary64.targetExponent (totalExponent steps exponent -
          totalExponent otherSteps otherExponent) =
            max ((steps.log2 : Int) - otherSteps.log2 + (exponent - otherExponent) - 53) (-1074) := by
        simp only [Format.targetExponent, totalExponent, Format.mantissaBits, Format.minExponent]
        omega
      rw [divCore, target]
      simp only [Nat.shiftLeft_eq]
      rfl
    rw [← signOf_div, partsOf, partsOf, dif_pos some, dif_pos otherSome, UnpackedFloat.div]
    simp only [core]

end Operations

/-- The product of two finite reals is the real nearest to their exact product. -/
theorem mul_ofMagnitude (negative other : Bool) {word factor : Nat} (finite : word < infinityWord)
    (factorFinite : factor < infinityWord) :
    ofMagnitude negative word * ofMagnitude other factor =
      ofMagnitude (negative ^^ other) (nearestWord (units word * units factor) (2 ^ 1074 * 2 ^ 1074)) := by
  have unit : 0 < 2 ^ 1074 * 2 ^ 1074 := Nat.mul_pos (pow_pos two_pos _) (pow_pos two_pos _)
  change Float.ofModel (.pack (UnpackedFloat.mul Format.binary64 (ofMagnitude negative word).toModel.unpack
    (ofMagnitude other factor).toModel.unpack)) = _
  rw [unpack_ofMagnitude negative finite, unpack_ofMagnitude other factorFinite, units_eq, units_eq,
    Nat.mul_mul_mul_comm, ← Nat.pow_add]
  rcases Nat.eq_zero_or_pos (significand word * significand factor) with nothing | some
  · rw [mul_partsOf_of_zero _ _ _ _ nothing, ofModel_pack_zero, nothing, Nat.zero_mul, nearestWord_zero unit]
  · have someSteps : 0 < significand word := Nat.pos_of_mul_pos_right some
    have someFactor : 0 < significand factor := Nat.pos_of_mul_pos_left some
    have fine : 2 ^ 52 ≤ significand word * significand factor ∨
        ((doublings word : Int) - 1074) + ((doublings factor : Int) - 1074) ≤ -1074 := by
      rcases undoubled_or_full word with least | full
      · rcases undoubled_or_full factor with factorLeast | factorFull
        · omega
        · exact .inl (factorFull.trans (Nat.le_mul_of_pos_left _ someSteps))
      · exact .inl (full.trans (Nat.le_mul_of_pos_right _ someFactor))
    rw [mul_partsOf_of_pos _ _ _ _ someSteps someFactor, ofModel_roundWithAccuracy_exact _ _ fine]
    refine congrArg (ofMagnitude _) ?_
    have unit : 2 ^ 1074 * 2 ^ 1074 = 1 * 2 ^ (1074 + 1074) := by rw [Nat.one_mul, pow_add]
    rw [unit]
    exact nearestWord_two_pow _ Nat.one_pos (by omega)

/-- The quotient of two finite reals, the second no zero, is the real nearest to their exact quotient. -/
theorem div_ofMagnitude (negative other : Bool) {word divisor : Nat} (finite : word < infinityWord)
    (divisorFinite : divisor < infinityWord) (some : 0 < significand divisor) :
    ofMagnitude negative word / ofMagnitude other divisor =
      ofMagnitude (negative ^^ other) (nearestWord (units word) (units divisor)) := by
  change Float.ofModel (.pack (UnpackedFloat.div Format.binary64 (ofMagnitude negative word).toModel.unpack
    (ofMagnitude other divisor).toModel.unpack)) = _
  rw [unpack_ofMagnitude negative finite, unpack_ofMagnitude other divisorFinite, units_eq, units_eq]
  rcases Nat.eq_zero_or_pos (significand word) with nothing | someWord
  · rw [nothing, div_partsOf_zero _ _ _ _ some, ofModel_pack_zero, Nat.zero_mul,
      nearestWord_zero (Nat.mul_pos some (Nat.two_pow_pos _))]
  · obtain ⟨places, finer, exponents, fine, quotient⟩ := div_partsOf_of_pos negative other
      ((doublings word : Int) - 1074) ((doublings divisor : Int) - 1074) someWord some
    rw [quotient, ofModel_roundWithAccuracy _ _ some fine, Nat.mul_assoc, ← Nat.pow_add]
    exact congrArg (ofMagnitude _) (nearestWord_two_pow _ some (by omega))

end TimedCommands.Binary64
