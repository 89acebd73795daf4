import Mathlib.Algebra.Order.Ring.Int
import TimedCommands.Binding

/-!
# Overflow of integer progressions

The value of an integer progression at a repetition is found in two steps: the offset from the
initial number, and the sum of both. A step whose result is not in the 64-bit range ends the
computation, so there is a value exactly if both are in range, and it is the exact one
(`value?_integer_eq_some_iff`).

The offset can be out of range while the sum is back in it, but only if it leads from the initial
number across zero (`fits_offset`). Hence a progression whose bounds have no opposite signs
overflows only where its exact value does; one whose bounds have opposite signs may do so earlier.
-/

namespace TimedCommands.Progression

variable {number : Int} {initial increment : Int64} {iteration : UInt32}

/-- An exact integer is in the 64-bit range. -/
def Fits (number : Int) : Prop :=
  Int64.minValue.toInt ≤ number ∧ number ≤ Int64.maxValue.toInt

instance : DecidablePred Fits := fun _ => inferInstanceAs (Decidable (_ ∧ _))

/-- A signed 64-bit integer fits 64 bits. -/
theorem fits_toInt (fitted : Int64) : Fits fitted.toInt :=
  ⟨fitted.minValue_le_toInt, fitted.toInt_le⟩

/-- An integer that is fitted keeps its value. -/
theorem fitInteger?_eq_some_iff {fitted : Int64} :
    fitInteger? number = some fitted ↔ fitted.toInt = number := by
  rw [fitInteger?]
  split
  case isTrue fits =>
    have kept : (Int64.ofInt number).toInt = number := by
      rw [Int64.toInt_ofInt_of_le]
      · exact fits.1
      · exact Int.lt_add_one_of_le fits.2
    rw [Option.some.injEq, ← Int64.toInt_inj, kept, eq_comm]
  case isFalse beyond =>
    refine iff_of_false nofun ?_
    rintro rfl
    exact beyond (fits_toInt fitted)

/-- A signed 64-bit integer is fitted as itself. -/
theorem fitInteger?_toInt (fitted : Int64) : fitInteger? fitted.toInt = some fitted :=
  fitInteger?_eq_some_iff.mpr rfl

/-- An integer is not fitted exactly if it does not fit. -/
theorem fitInteger?_eq_none_iff : fitInteger? number = none ↔ ¬ Fits number := by
  rw [fitInteger?]
  split <;> simp_all [Fits]

/-! The two steps. -/

/-- The exact distance of a repetition's value from the initial number. -/
def offset (increment : Int64) (iteration : UInt32) : Int := increment.toInt * iteration.toNat

/-- The exact value of a repetition. -/
def exactValue (initial increment : Int64) (iteration : UInt32) : Int :=
  initial.toInt + offset increment iteration

/-- There is a value exactly if both steps stay in the range, and it is the exact one. -/
theorem value?_integer_eq_some_iff {value : Value} :
    (integer initial increment).value? iteration.toNat = some value ↔
      Fits (offset increment iteration) ∧
        ∃ sum : Int64, sum.toInt = exactValue initial increment iteration ∧ .integer sum = value := by
  simp only [value?, exactValue, offset]
  cases first : fitInteger? (increment.toInt * iteration.toNat) with
  | none => simp [fitInteger?_eq_none_iff.mp first]
  | some fitted =>
    have same := fitInteger?_eq_some_iff.mp first
    have fits : Fits (increment.toInt * iteration.toNat) := same ▸ fits_toInt fitted
    simp [Option.bind_eq_some_iff, same, fits, fitInteger?_eq_some_iff]

/-- There is no value exactly if the offset or the value does not fit. -/
theorem value?_integer_eq_none_iff :
    (integer initial increment).value? iteration.toNat = none ↔
      Fits (offset increment iteration) → ¬ Fits (exactValue initial increment iteration) := by
  rw [Option.eq_none_iff_forall_ne_some]
  constructor
  · intro noValue fits fitsExact
    obtain ⟨sum, isSum⟩ : ∃ sum, fitInteger? (exactValue initial increment iteration) = some sum :=
      Option.ne_none_iff_exists'.mp fun beyond => fitInteger?_eq_none_iff.mp beyond fitsExact
    exact noValue _ (value?_integer_eq_some_iff.mpr
      ⟨fits, sum, fitInteger?_eq_some_iff.mp isSum, rfl⟩)
  · intro beyond value isValue
    obtain ⟨fits, sum, isSum, -⟩ := value?_integer_eq_some_iff.mp isValue
    exact beyond fits (isSum ▸ fits_toInt sum)

/-- There is no value where the offset does not fit, whatever it would be added to. -/
theorem value?_of_offset (beyond : ¬ Fits (offset increment iteration)) (initial : Int64) :
    (integer initial increment).value? iteration.toNat = none :=
  value?_integer_eq_none_iff.mpr fun fits => absurd fits beyond

/-- An offset that leads away from zero is in the range if the sum is. -/
theorem fits_offset (alike : 0 ≤ initial.toInt * increment.toInt)
    (fits : Fits (exactValue initial increment iteration)) : Fits (offset increment iteration) := by
  obtain ⟨above, below⟩ := fits
  have lowest : Int64.minValue.toInt ≤ 0 := by decide
  have highest : 0 ≤ Int64.maxValue.toInt := by decide
  rw [exactValue] at above below
  rcases Int.mul_nonneg_iff.mp alike with ⟨initialUp, up⟩ | ⟨initialDown, down⟩
  · have offsetUp : 0 ≤ offset increment iteration := Int.mul_nonneg up (Int.natCast_nonneg _)
    exact ⟨by omega, by omega⟩
  · have offsetDown : offset increment iteration ≤ 0 :=
      Int.mul_nonpos_of_nonpos_of_nonneg down (Int.natCast_nonneg _)
    exact ⟨by omega, by omega⟩

/-- A repetition has its exact value if that is in the range, and none if it is not. -/
structure OverflowsWithValue (initial increment : Int64) (iteration : UInt32) : Prop where
  value : ∀ sum : Int64, sum.toInt = exactValue initial increment iteration →
    (integer initial increment).value? iteration.toNat = some (.integer sum)
  overflow : (integer initial increment).value? iteration.toNat = none ↔
    ¬ Fits (exactValue initial increment iteration)

/-- The value alone tells of an overflow exactly if the offset fits whenever the value does. -/
theorem overflowsWithValue_iff :
    OverflowsWithValue initial increment iteration ↔
      (Fits (exactValue initial increment iteration) → Fits (offset increment iteration)) := by
  constructor
  · intro withValue fitsExact
    by_contra beyond
    exact withValue.overflow.mp (value?_of_offset beyond initial) fitsExact
  · intro fits
    refine ⟨fun sum isSum => ?_, ?_⟩
    · exact value?_integer_eq_some_iff.mpr ⟨fits (isSum ▸ fits_toInt sum), sum, isSum, rfl⟩
    · rw [value?_integer_eq_none_iff]
      exact ⟨fun beyond fitsExact => beyond (fits fitsExact) fitsExact, fun beyond _ => beyond⟩

/-- A repetition of an integer progression has its exact value if both the offset and that value are
in the range, and none if one of them is not. So it overflows with its value unless the offset
overflows before, which happens only if the bounds have opposite signs. -/
theorem overflows_with_offset_or_value (initial increment : Int64) (iteration : UInt32) :
    (∀ sum : Int64, sum.toInt = exactValue initial increment iteration →
      Fits (offset increment iteration) →
        (integer initial increment).value? iteration.toNat = some (.integer sum)) ∧
    ((integer initial increment).value? iteration.toNat = none ↔
      ¬ Fits (offset increment iteration) ∨ ¬ Fits (exactValue initial increment iteration)) ∧
    (OverflowsWithValue initial increment iteration ↔
      (Fits (exactValue initial increment iteration) → Fits (offset increment iteration))) ∧
    (0 ≤ initial.toInt * increment.toInt → OverflowsWithValue initial increment iteration) := by
  refine ⟨fun sum isSum fits => ?_, ?_, overflowsWithValue_iff,
    fun alike => overflowsWithValue_iff.mpr (fits_offset alike)⟩
  · exact value?_integer_eq_some_iff.mpr ⟨fits, sum, isSum, rfl⟩
  · rw [value?_integer_eq_none_iff, imp_iff_not_or]

/-- Two steps down from two: the offset is beyond the least number, and the sum is that number. -/
theorem overflows_before_value :
    let increment : Int64 := -4611686018427387905
    exactValue 2 increment 2 = Int64.minValue.toInt ∧ (integer 2 increment).value? 2 = none ∧
      ¬ OverflowsWithValue 2 increment 2 := by
  intro increment
  have noValue : (integer 2 increment).value? 2 = none := by decide
  have fits : Fits (exactValue 2 increment 2) := by decide
  exact ⟨by decide, noValue, fun withValue => withValue.overflow.mp noValue fits⟩

end TimedCommands.Progression
