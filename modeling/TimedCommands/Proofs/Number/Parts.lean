import TimedCommands.Proofs.Number.RealText

/-!
# Reals as steps

A finite real is a sign and a number of steps of a power of two. Its bits are unpacked into them
(`Binary64.unpack_ofMagnitude`), and steps are packed into the word that counts them, or into infinity
if they are beyond the grid (`Binary64.ofModel_pack_partsOf`).
-/

namespace TimedCommands.Binary64

open Float.Model Float.Model.UnpackedFloat

/-- The sign of a real. -/
def signOf (negative : Bool) : Sign := if negative then .negative else .positive

/-- A sign and a number of steps of a power of two. -/
def partsOf (negative : Bool) (steps : Nat) (exponent : Int) : UnpackedFloat :=
  if some : 0 < steps then .finite (signOf negative) steps exponent some else .zero (signOf negative)

/-- The bits of a sign and the word of a magnitude. -/
def bitsOf (negative : Bool) (word : Nat) : Nat := if negative then signWord + word else word

/-- A real with the bits of a sign and a magnitude is the real of these. -/
theorem eq_ofMagnitude {real : Float} {negative : Bool} {word : Nat}
    (bits : real.toBits.toNat = bitsOf negative word) : real = ofMagnitude negative word := by
  rw [ofMagnitude, ← bitsOf, ← bits, UInt64.ofNat_toNat, Float.ofBits_toBits]

/-- A sign, an exponent and a mantissa side by side are the bits of a magnitude. -/
theorem toNat_packComponents (negative : Bool) (exponent : BitVec 11) (mantissa : BitVec 52) :
    (packComponents Format.binary64 (signOf negative) exponent mantissa).toNat =
      bitsOf negative (exponent.toNat * wordsPerStep + mantissa.toNat) := by
  rw [packComponents, BitVec.toNat_append, BitVec.toNat_append,
    ← Nat.shiftLeft_add_eq_or_of_lt exponent.isLt, ← Nat.shiftLeft_add_eq_or_of_lt mantissa.isLt]
  cases negative <;>
    simp [signOf, Sign.toBitVec, bitsOf, signWord, wordsPerStep, Nat.shiftLeft_eq]
  all_goals omega

/-- The exponent field of a step that has doubled so often is one more than that. -/
theorem biasedExponent (doubled : Nat) :
    ((doubled : Int) - 1074 + Format.binary64.exponentBias +
      Format.binary64.mantissaBitsWithoutImplicit).toNat = doubled + 1 := by
  simp only [Format.exponentBias]
  omega

/-- A significand with its exponent packs to the word that it is the significand of. -/
theorem toNat_pack_finite (negative : Bool) {steps doubled : Nat} (some : 0 < steps)
    (fits : steps < 2 ^ 53) (normal : doubled = 0 ∨ 2 ^ 52 ≤ steps)
    (below : doubled * wordsPerStep + steps < infinityWord) :
    (UnpackedFloat.pack Format.binary64
      (.finite (signOf negative) steps (doubled - 1074) some)).toNat =
      bitsOf negative (doubled * wordsPerStep + steps) := by
  have fewDoubled : doubled < 2046 := by
    rw [wordsPerStep, infinityWord] at below
    omega
  have biased := biasedExponent doubled
  rw [UnpackedFloat.pack]
  simp only [biased]
  rw [if_neg (by omega)]
  by_cases full : 2 ^ 52 ≤ steps
  · have length : steps.log2 + 1 = Format.binary64.mantissaBits := by
      have long := (Nat.le_log2 some.ne').mpr full
      have short := (Nat.log2_lt some.ne').mpr fits
      simp only [Format.mantissaBits]
      omega
    have word : (doubled + 1) % 2 ^ 11 * wordsPerStep + steps % 2 ^ 52 =
        doubled * wordsPerStep + steps := by
      rw [wordsPerStep]
      omega
    rw [if_pos length, toNat_packComponents, BitVec.toNat_ofNat, BitVec.toNat_ofNat, word]
  · have length : ¬ steps.log2 + 1 = Format.binary64.mantissaBits := by
      have short := (Nat.log2_lt some.ne').mpr (Nat.not_le.mp full)
      simp only [Format.mantissaBits]
      omega
    obtain rfl : doubled = 0 := normal.resolve_right full
    rw [if_neg length, toNat_packComponents, BitVec.toNat_ofNat, BitVec.toNat_ofNat,
      Nat.mod_eq_of_lt (Nat.not_le.mp full)]

/-- An exponent beyond the largest packs to infinity. -/
theorem toNat_pack_huge (negative : Bool) {steps doubled : Nat} (some : 0 < steps)
    (huge : 2046 ≤ doubled) :
    (UnpackedFloat.pack Format.binary64
      (.finite (signOf negative) steps (doubled - 1074) some)).toNat = bitsOf negative infinityWord := by
  have word : (-1#11).toNat * wordsPerStep + (0#52).toNat = infinityWord := by decide
  have biased := biasedExponent doubled
  rw [UnpackedFloat.pack]
  simp only [biased]
  rw [if_pos (by omega), packedInfinity, toNat_packComponents]
  exact congrArg (bitsOf negative) word

/-- Steps that fit are packed into the word that counts them, or into infinity. -/
theorem toNat_pack_partsOf (negative : Bool) {steps doubled : Nat} (fits : steps < 2 ^ 53)
    (normal : doubled = 0 ∨ 2 ^ 52 ≤ steps) :
    (UnpackedFloat.pack Format.binary64 (partsOf negative steps (doubled - 1074))).toNat =
      bitsOf negative (min (doubled * wordsPerStep + steps) infinityWord) := by
  rcases Nat.eq_zero_or_pos steps with rfl | some
  · obtain rfl : doubled = 0 := by omega
    rw [partsOf, dif_neg (Nat.lt_irrefl 0), UnpackedFloat.pack, packedZero]
    exact toNat_packComponents negative 0 0
  rw [partsOf, dif_pos some]
  rcases Nat.lt_or_ge (doubled * wordsPerStep + steps) infinityWord with below | above
  · rw [Nat.min_eq_left below.le, toNat_pack_finite negative some fits normal below]
  · have huge : 2046 ≤ doubled := by
      rw [wordsPerStep, infinityWord] at above
      omega
    rw [Nat.min_eq_right above, toNat_pack_huge negative some huge]

section Fields

variable {negative : Bool} {word : Nat} {bits : BitVec 64}

/-- The exponent field of a word is what is left of it without the low 52 bits. -/
theorem toNat_unpackExponent (below : word < signWord) (isBits : bits.toNat = bitsOf negative word) :
    (@unpackExponent Format.binary64 bits).toNat = word / 2 ^ 52 := by
  have field : (@unpackExponent Format.binary64 bits).toNat = bits.toNat / 2 ^ 52 % 2 ^ 11 := by
    simp [unpackExponent, BitVec.extractLsb, Nat.shiftRight_eq_div_pow]
  rw [field, isBits, bitsOf, signWord]
  rw [signWord] at below
  split <;> omega

/-- The mantissa field of a word is its low 52 bits. -/
theorem toNat_unpackMantissa (isBits : bits.toNat = bitsOf negative word) :
    (@unpackMantissa Format.binary64 bits).toNat = word % 2 ^ 52 := by
  have field : (@unpackMantissa Format.binary64 bits).toNat = bits.toNat % 2 ^ 52 := by
    simp [unpackMantissa, BitVec.extractLsb]
  rw [field, isBits, bitsOf, signWord]
  split <;> omega

/-- The sign of a word is its highest bit. -/
theorem ofBitVec_unpackSign (below : word < signWord) (isBits : bits.toNat = bitsOf negative word) :
    Sign.ofBitVec (@unpackSign Format.binary64 bits) = signOf negative := by
  have field : (@unpackSign Format.binary64 bits).toNat = bits.toNat / 2 ^ 63 % 2 := by
    simp [unpackSign, BitVec.extractLsb, Nat.shiftRight_eq_div_pow]
  have isClear : @unpackSign Format.binary64 bits = 0#1 ↔ negative = false := by
    rw [← BitVec.toNat_inj, field, isBits, bitsOf, signWord]
    rw [signWord] at below
    cases negative <;> simp <;> omega
  rw [Sign.ofBitVec, signOf]
  simp only [isClear]
  cases negative <;> rfl

/-- The bits of a finite word are unpacked into its steps. Only a word whose step has not doubled may
have no exponent, and then all of its bits are shown. -/
theorem unpack_bitsOf (finite : word < infinityWord) (isBits : bits.toNat = bitsOf negative word) :
    UnpackedFloat.unpack Format.binary64 bits =
      partsOf negative (significand word) (doublings word - 1074) := by
  have below : word < signWord := finite.trans_le (by decide)
  have exponent := toNat_unpackExponent below isBits
  have mantissa := toNat_unpackMantissa isBits
  have noInfinity : @unpackExponent Format.binary64 bits ≠ -1#11 := by
    rw [Ne, ← BitVec.toNat_inj, exponent]
    rw [infinityWord] at finite
    simp
    omega
  have isLeast : @unpackExponent Format.binary64 bits = 0#11 ↔ word < 2 ^ 52 := by
    rw [← BitVec.toNat_inj, exponent]
    simp
  rw [UnpackedFloat.unpack, partsOf]
  simp only [ofBitVec_unpackSign below isBits]
  rw [if_neg noInfinity]
  by_cases least : word < 2 ^ 52
  · obtain ⟨steps, undoubled⟩ := steps_of_lt least
    have noExponent : word / 2 ^ 52 = 0 := Nat.div_eq_of_lt least
    have isNothing : @unpackMantissa Format.binary64 bits = 0#52 ↔ word = 0 := by
      rw [← BitVec.toNat_inj, mantissa, Nat.mod_eq_of_lt least]
      rfl
    rw [if_pos (isLeast.mpr least), steps, undoubled]
    by_cases nothing : word = 0
    · rw [dif_pos (isNothing.mpr nothing), dif_neg (by omega)]
    · rw [dif_neg (mt isNothing.mp nothing), dif_pos (Nat.pos_of_ne_zero nothing)]
      simp only [UnpackedFloat.finite.injEq, true_and, mantissa, exponent, noExponent,
        Nat.mod_eq_of_lt least, Format.exponentBias]
      trivial
  · obtain ⟨steps, doubled⟩ := steps_of_le (Nat.not_lt.mp least)
    have counted : (doublings word : Int) = word / 2 ^ 52 - 1 := by omega
    have full : (1#1 ++ @unpackMantissa Format.binary64 bits).toNat = 2 ^ 52 + word % 2 ^ 52 := by
      rw [BitVec.toNat_append,
        ← Nat.shiftLeft_add_eq_or_of_lt (@unpackMantissa Format.binary64 bits).isLt, mantissa]
      rfl
    rw [if_neg (mt isLeast.mp least), dif_pos (by omega)]
    simp only [UnpackedFloat.finite.injEq, true_and, exponent, Format.exponentBias, counted, steps]
    exact ⟨full, by omega⟩

end Fields

/-- The bits of the real with a finite word are those of its sign and its word. -/
theorem toNat_toBits_ofMagnitude (negative : Bool) {word : Nat} (finite : word < infinityWord) :
    (ofMagnitude negative word).toBits.toNat = bitsOf negative word := by
  have below : bitsOf negative word < 2 ^ 64 := by
    rw [bitsOf, signWord]
    rw [infinityWord] at finite
    split <;> omega
  have bits : (UInt64.ofNat (bitsOf negative word)).toBitVec.toNat = bitsOf negative word :=
    Nat.mod_eq_of_lt below
  have packed : (ofMagnitude negative word).toModel =
      .pack (partsOf negative (significand word) (doublings word - 1074)) :=
    congrArg Float.Model.pack (unpack_bitsOf finite bits)
  have repacked := toNat_pack_partsOf negative (significand_lt word) (undoubled_or_full word)
  rw [word_eq, Nat.min_eq_left finite.le] at repacked
  rw [Float.toBits, packed]
  exact repacked

/-- A magnitude below infinity is that of a finite real. -/
theorem isFinite_ofMagnitude (negative : Bool) {word : Nat} (finite : word < infinityWord) :
    (ofMagnitude negative word).isFinite = true := by
  rw [isFinite_iff, magnitudeWord, toNat_toBits_ofMagnitude negative finite, bitsOf]
  rw [infinityWord] at finite ⊢
  rw [signWord]
  split <;> omega

/-- A finite real is its sign and its steps. -/
theorem unpack_ofMagnitude (negative : Bool) {word : Nat} (finite : word < infinityWord) :
    (ofMagnitude negative word).toModel.unpack =
      partsOf negative (significand word) (doublings word - 1074) :=
  unpack_bitsOf finite (toNat_toBits_ofMagnitude negative finite)

/-- Steps that fit make the real of the word that counts them. -/
theorem ofModel_pack_partsOf (negative : Bool) {steps doubled : Nat} (fits : steps < 2 ^ 53)
    (normal : doubled = 0 ∨ 2 ^ 52 ≤ steps) :
    Float.ofModel (.pack (partsOf negative steps (doubled - 1074))) =
      ofMagnitude negative (min (doubled * wordsPerStep + steps) infinityWord) :=
  eq_ofMagnitude (toNat_pack_partsOf negative fits normal)

/-- Negating a real changes its sign and keeps its magnitude. -/
theorem neg_ofMagnitude (negative : Bool) {word : Nat} (finite : word < infinityWord) :
    -ofMagnitude negative word = ofMagnitude (!negative) word := by
  have opposite : UnpackedFloat.neg (partsOf negative (significand word) (doublings word - 1074)) =
      partsOf (!negative) (significand word) (doublings word - 1074) := by
    rw [partsOf, partsOf]
    split <;> cases negative <;> rfl
  change Float.ofModel (.pack (UnpackedFloat.neg (ofMagnitude negative word).toModel.unpack)) = _
  rw [unpack_ofMagnitude negative finite, opposite,
    ofModel_pack_partsOf _ (significand_lt word) (undoubled_or_full word), word_eq,
    Nat.min_eq_left finite.le]

end TimedCommands.Binary64
