import TimedCommands.Proofs.Number.Rounding

/-!
# The nearest word

What it means for a word to be nearest to a quotient is told by distances alone: no other word of
the grid is nearer, and the word is even if another one is as near (`IsNearest`). Infinity counts as
the next number of the grid would, so a quotient is nearest to it from the middle between the
largest real and that number on.

The word that a quotient is rounded to is nearest to it, and no other word is
(`isNearest_iff`).
-/

namespace TimedCommands.Binary64

/-- The magnitude of a word in units of the least one, by its exponent field and its fraction. -/
def fieldUnits (word : Nat) : Nat :=
  let exponent := word / 2 ^ 52
  let fraction := word % 2 ^ 52
  if exponent = 0 then fraction else (2 ^ 52 + fraction) * 2 ^ (exponent - 1)

/-- How far the magnitude of a word is from the quotient of a number of units and a denominator, in
units and times the denominator. -/
def distance (scaled denominator word : Nat) : Nat :=
  ((fieldUnits word * denominator : Nat) - (scaled : Nat) : Int).natAbs

/-- A word that is nearest to a quotient, and even if another one is as near. -/
structure IsNearest (scaled denominator word : Nat) : Prop where
  onGrid : word ≤ infinityWord
  nearest : ∀ other ≤ infinityWord,
    distance scaled denominator word ≤ distance scaled denominator other
  even : ∀ other ≤ infinityWord, other ≠ word →
    distance scaled denominator word = distance scaled denominator other → word % 2 = 0

/-- The units of a word are those that its fields show. -/
theorem fieldUnits_eq (word : Nat) : fieldUnits word = units word := by
  rw [fieldUnits, units_eq]
  rcases Nat.lt_or_ge word (2 ^ 52) with least | atLeast
  · obtain ⟨sameSignificand, undoubled⟩ := steps_of_lt least
    rw [if_pos (Nat.div_eq_of_lt least), sameSignificand, undoubled, Nat.mod_eq_of_lt least,
      Nat.pow_zero, Nat.mul_one]
  · obtain ⟨sameSignificand, doubled⟩ := steps_of_le atLeast
    have someExponent : word / 2 ^ 52 ≠ 0 := by omega
    have sameExponent : word / 2 ^ 52 - 1 = doublings word := by omega
    rw [if_neg someExponent, sameSignificand, sameExponent]

/-- A count of steps of one size is a word of its own, if the significand takes up all of its bits
once the step has doubled. -/
theorem units_of_steps {steps count : Nat} (fits : count ≤ 2 ^ 53)
    (full : steps = 0 ∨ 2 ^ 52 ≤ count) :
    units (steps * wordsPerStep + count) = count * 2 ^ steps := by
  have isWord : steps * wordsPerStep + count = steps * 2 ^ 52 + count := rfl
  rw [units_eq, isWord]
  rcases Nat.lt_or_ge count (2 ^ 53) with below | carry
  · have isDoubled : doublings (steps * 2 ^ 52 + count) = steps := by
      rw [doublings, wordsPerStep]
      omega
    have isCount : significand (steps * 2 ^ 52 + count) = count := by
      rw [significand, isDoubled, wordsPerStep]
      omega
    rw [isDoubled, isCount]
  · -- The carry out of the significand doubles the step.
    obtain rfl : count = 2 ^ 53 := by omega
    have isDoubled : doublings (steps * 2 ^ 52 + 2 ^ 53) = steps + 1 := by
      rw [doublings, wordsPerStep]
      omega
    have isCount : significand (steps * 2 ^ 52 + 2 ^ 53) = 2 ^ 52 := by
      rw [significand, isDoubled, wordsPerStep]
      omega
    rw [isDoubled, isCount, ← Nat.pow_add, ← Nat.pow_add]
    congr 1
    omega

/-- The next word is one step further. -/
theorem units_succ (word : Nat) : units (word + 1) = units word + 2 ^ doublings word := by
  have next : doublings word * wordsPerStep + (significand word + 1) = word + 1 := by
    rw [← Nat.add_assoc, word_eq]
  have full : doublings word = 0 ∨ 2 ^ 52 ≤ significand word + 1 :=
    (undoubled_or_full word).imp_right Nat.le_succ_of_le
  rw [← next, units_of_steps (significand_lt word) full, units_eq, Nat.succ_mul]

/-- A greater word has more units. -/
theorem units_strictMono : StrictMono units := by
  refine strictMono_nat_of_lt_succ fun word => ?_
  rw [units_succ]
  exact Nat.lt_add_of_pos_right (Nat.two_pow_pos _)

/-- The order of words is that of their units over any denominator. -/
theorem units_mul_lt {word other denominator : Nat} (positive : 0 < denominator)
    (before : word < other) : units word * denominator < units other * denominator :=
  Nat.mul_lt_mul_of_pos_right (units_strictMono before) positive

/-- The nearest natural number is at most half away, and less if it is odd. -/
theorem divideToNearest_spec (numerator : Nat) {denominator : Nat} (positive : 0 < denominator) :
    let nearest := divideToNearest numerator denominator
    (2 * numerator ≤ 2 * (nearest * denominator) + denominator ∧
        2 * (nearest * denominator) ≤ 2 * numerator + denominator) ∧
      (nearest % 2 = 1 → 2 * numerator < 2 * (nearest * denominator) + denominator ∧
        2 * (nearest * denominator) < 2 * numerator + denominator) := by
  have parts := Nat.div_add_mod' numerator denominator
  have small := Nat.mod_lt numerator positive
  rw [divideToNearest]
  split
  · dsimp only
    omega
  split
  · simp only [Nat.add_mul, Nat.one_mul]
    omega
  · rcases Nat.mod_two_eq_zero_or_one (numerator / denominator) with even | odd
    · simp only [even, Nat.add_zero]
      omega
    · simp only [odd, Nat.add_mul, Nat.one_mul]
      omega

/-- How a quotient is rounded: to a count of steps of one size, which are so small that the count
takes up all bits, unless they are the least ones. -/
theorem exists_steps (numerator : Nat) {denominator : Nat} (positive : 0 < denominator) :
    ∃ steps count, nearestWord numerator denominator =
        min (steps * wordsPerStep + count) infinityWord ∧
      count = divideToNearest (numerator <<< 1074) (denominator * 2 ^ steps) ∧ count ≤ 2 ^ 53 ∧
      (steps = 0 ∨ 2 ^ 52 ≤ count ∧ 2 ^ 52 * 2 ^ steps * denominator ≤ numerator <<< 1074) := by
  let scaled := numerator <<< 1074
  let steps := (scaled / denominator).log2 - 52
  let count := divideToNearest scaled (denominator * 2 ^ steps)
  have bounds : scaled / denominator / 2 ^ steps ≤ count ∧
      count ≤ scaled / denominator / 2 ^ steps + 1 := by
    rw [Nat.div_div_eq_div_mul]
    exact divideToNearest_bounds scaled (denominator * 2 ^ steps)
  have short : scaled / denominator / 2 ^ steps < 2 ^ 53 := div_two_pow_lt (by omega)
  refine ⟨steps, count, ?_, rfl, by omega, ?_⟩
  · rw [nearestWord, Nat.shiftLeft_eq denominator]
  · by_cases least : steps = 0
    · exact .inl least
    · have length : (scaled / denominator).log2 = 52 + steps := by omega
      have full : 2 ^ 52 ≤ scaled / denominator / 2 ^ steps := le_div_two_pow length
      refine .inr ⟨full.trans bounds.1, ?_⟩
      rw [← Nat.le_div_iff_mul_le positive, ← Nat.le_div_iff_mul_le (Nat.two_pow_pos _)]
      exact full

/-- A quotient lies between the middles that a word has with all words below and above it, and it
is not one of them if the word is odd. -/
structure BetweenMiddles (scaled denominator word : Nat) : Prop where
  below : ∀ other < word,
    units other * denominator + units word * denominator ≤ 2 * scaled ∧
      (word % 2 = 1 → units other * denominator + units word * denominator < 2 * scaled)
  above : ∀ other, word < other →
    2 * scaled ≤ units word * denominator + units other * denominator ∧
      (word % 2 = 1 → 2 * scaled < units word * denominator + units other * denominator)

/-- A quotient lies between the middles of the word that it is rounded to, before that word is
bounded by infinity. -/
theorem betweenMiddles_of_steps {scaled denominator steps count : Nat} (positive : 0 < denominator)
    (rounded : count = divideToNearest scaled (denominator * 2 ^ steps)) (fits : count ≤ 2 ^ 53)
    (full : steps = 0 ∨ 2 ^ 52 ≤ count ∧ 2 ^ 52 * 2 ^ steps * denominator ≤ scaled) :
    BetweenMiddles scaled denominator (steps * wordsPerStep + count) := by
  have magnitude := units_of_steps fits (full.imp_right And.left)
  obtain ⟨⟨notBehind, notBefore⟩, odd⟩ :=
    divideToNearest_spec scaled (Nat.mul_pos positive (Nat.two_pow_pos steps))
  rw [← rounded] at notBehind notBefore odd
  obtain ⟨step, isStep⟩ : ∃ step, step = denominator * 2 ^ steps := ⟨_, rfl⟩
  have inSteps (counted : Nat) : counted * 2 ^ steps * denominator = counted * step := by
    rw [isStep, Nat.mul_assoc, Nat.mul_comm (2 ^ steps)]
  rw [← isStep] at notBehind notBefore odd
  obtain ⟨word, isWord⟩ : ∃ word, word = steps * wordsPerStep + count := ⟨_, rfl⟩
  have inWords : word = steps * 2 ^ 52 + count := isWord
  rw [← isWord] at magnitude ⊢
  have own : units word * denominator = count * step := by rw [magnitude, inSteps]
  have parity : word % 2 = count % 2 := by omega
  refine ⟨fun other isBelow => ?_, fun other isAbove => ?_⟩
  -- A word above is at least one step more. So is a word below one step less, unless the steps are
  -- half as long below this word.
  · by_cases whole : steps = 0 ∨ 2 ^ 52 < count
    · have some : 0 < count := by omega
      have before : units (steps * wordsPerStep + (count - 1)) = (count - 1) * 2 ^ steps :=
        units_of_steps (by omega) (whole.imp_right Nat.le_sub_one_of_lt)
      have atMost : units other ≤ (count - 1) * 2 ^ steps := by
        rw [← before]
        exact units_strictMono.monotone (by rw [wordsPerStep]; omega)
      have further : units other * denominator + step ≤ count * step := by
        calc units other * denominator + step
            ≤ (count - 1) * 2 ^ steps * denominator + step :=
              Nat.add_le_add_right (Nat.mul_le_mul_right _ atMost) _
          _ = (count - 1) * step + step := by rw [inSteps]
          _ = count * step := by rw [← Nat.succ_mul, Nat.succ_eq_add_one, Nat.sub_add_cancel some]
      rw [own, parity]
      omega
    · -- The step halves below the word, but the quotient is not below it.
      obtain ⟨-, notSmaller⟩ := full.resolve_left fun least => whole (.inl least)
      have least : count = 2 ^ 52 := by omega
      have smaller := units_mul_lt positive isBelow
      have reached : units word * denominator ≤ scaled := by rwa [magnitude, least]
      omega
  · have doubled : steps ≤ doublings word := by
      rw [doublings, wordsPerStep]
      omega
    have atLeast : units word + 2 ^ steps ≤ units other := by
      calc units word + 2 ^ steps ≤ units word + 2 ^ doublings word :=
            Nat.add_le_add_left (Nat.pow_le_pow_right (by decide) doubled) _
        _ = units (word + 1) := (units_succ word).symm
        _ ≤ units other := units_strictMono.monotone isAbove
    have further : count * step + step ≤ units other * denominator := by
      calc count * step + step = (units word + 2 ^ steps) * denominator := by
            rw [← own, Nat.add_mul, Nat.mul_comm (2 ^ steps), isStep]
        _ ≤ units other * denominator := Nat.mul_le_mul_right _ atLeast
    rw [own, parity]
    omega

/-- A word is nearest to a quotient between its middles. -/
theorem BetweenMiddles.isNearest {scaled denominator word : Nat} (positive : 0 < denominator)
    (between : BetweenMiddles scaled denominator word) (onGrid : word ≤ infinityWord) :
    IsNearest scaled denominator word := by
  have apart (other : Nat) (different : other ≠ word) :
      distance scaled denominator word ≤ distance scaled denominator other ∧
        (word % 2 = 1 → distance scaled denominator word < distance scaled denominator other) := by
    simp only [distance, fieldUnits_eq]
    rcases Nat.lt_or_gt_of_ne different with isBelow | isAbove
    · have smaller := units_mul_lt positive isBelow
      have middle := between.below other isBelow
      omega
    · have greater := units_mul_lt positive isAbove
      have middle := between.above other isAbove
      omega
  refine ⟨onGrid, fun other _ => ?_, fun other _ different same => ?_⟩
  · by_cases different : other = word
    · rw [different]
    · exact (apart other different).1
  · by_contra odd
    have nearer := (apart other different).2 (by omega)
    exact nearer.ne same

/-- Infinity is nearest to a quotient between the middles of a word beyond. -/
theorem BetweenMiddles.isNearest_infinityWord {scaled denominator word : Nat}
    (positive : 0 < denominator) (between : BetweenMiddles scaled denominator word)
    (beyond : infinityWord < word) : IsNearest scaled denominator infinityWord := by
  have nearer (other : Nat) (smaller : other < infinityWord) :
      distance scaled denominator infinityWord < distance scaled denominator other := by
    have below := units_mul_lt positive smaller
    have above := units_mul_lt positive beyond
    have middle := (between.below infinityWord beyond).1
    simp only [distance, fieldUnits_eq]
    omega
  refine ⟨Nat.le_refl _, fun other onGrid => ?_, fun other onGrid different same => ?_⟩
  · rcases Nat.lt_or_eq_of_le onGrid with smaller | rfl
    · exact (nearer other smaller).le
    · exact Nat.le_refl _
  · exact absurd same (nearer other (Nat.lt_of_le_of_ne onGrid different)).ne

/-- A quotient is rounded to a nearest word. -/
theorem isNearest_nearestWord (numerator : Nat) {denominator : Nat} (positive : 0 < denominator) :
    IsNearest (numerator <<< 1074) denominator (nearestWord numerator denominator) := by
  obtain ⟨steps, count, isWord, rounded, fits, full⟩ := exists_steps numerator positive
  have between := betweenMiddles_of_steps positive rounded fits full
  rw [isWord]
  rcases Nat.lt_or_ge infinityWord (steps * wordsPerStep + count) with beyond | onGrid
  · rw [Nat.min_eq_right beyond.le]
    exact between.isNearest_infinityWord positive beyond
  · rw [Nat.min_eq_left onGrid]
    exact between.isNearest positive onGrid

/-- Of two words, one at most is nearest to a quotient: between two even ones there is a nearer one,
and two that are not both even are not as near. -/
theorem IsNearest.not_lt {scaled denominator word other : Nat} (positive : 0 < denominator)
    (here : IsNearest scaled denominator word) (there : IsNearest scaled denominator other) :
    ¬ word < other := by
  intro before
  have same : distance scaled denominator word = distance scaled denominator other :=
    Nat.le_antisymm (here.nearest other there.onGrid) (there.nearest word here.onGrid)
  have even := here.even other there.onGrid before.ne' same
  have otherEven := there.even word here.onGrid before.ne same.symm
  have inside := here.nearest (word + 1) (Nat.le_trans before there.onGrid)
  have left := units_mul_lt positive (Nat.lt_add_one word)
  have right := units_mul_lt positive (show word + 1 < other by omega)
  simp only [distance, fieldUnits_eq] at same inside
  omega

/-- A word is the one that a quotient is rounded to exactly if it is nearest to it. -/
theorem isNearest_iff {numerator denominator word : Nat} (positive : 0 < denominator) :
    IsNearest (numerator <<< 1074) denominator word ↔ word = nearestWord numerator denominator := by
  constructor
  · intro nearest
    have rounded := isNearest_nearestWord numerator positive
    exact Nat.le_antisymm (Nat.le_of_not_lt (rounded.not_lt positive nearest))
      (Nat.le_of_not_lt (nearest.not_lt positive rounded))
  · rintro rfl
    exact isNearest_nearestWord numerator positive

end TimedCommands.Binary64
