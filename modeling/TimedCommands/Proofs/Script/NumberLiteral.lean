import TimedCommands.Proofs.Number.RealText
import TimedCommands.Proofs.Script.Grammar
import TimedCommands.Proofs.Script.Words

/-!
# Number literals read back

The written form of a number is one literal of its kind, and the literal denotes the number it
was written for. Only a real that is not finite is written without digits: as a name, or behind
a minus sign as no token at all.
-/

namespace TimedCommands.Script

/-- A whole numeral without a fraction or a power is the literal of an integer. -/
theorem literalToken_naturalNumeral (negative : Bool) (number : Nat) :
    literalToken negative (naturalNumeral number) =
      .integer (String.ofList (minusSign negative ++ Nat.toDigits 10 number)) := by
  rw [literalToken, numberToken, chars_naturalNumeral, if_neg]
  simp [naturalNumeral, Numeral.IsReal]

/-- The decimal text of an integer is lexed as its literal. -/
theorem spells_integer (number : Int) :
    Spells (toString number).toList (.integer (toString number)) := by
  have spells := spells_numeral (number < 0) (naturalNumeral number.natAbs)
  rw [literalToken_naturalNumeral, chars_naturalNumeral, ← toList_toString,
    String.ofList_toList] at spells
  exact spells

/-- The decimal text of a natural number is lexed as its literal. -/
theorem spells_natural (number : Nat) :
    Spells (toString number).toList (.integer (toString number)) :=
  spells_integer number

/-- The digits of a number are a text of it. -/
theorem naturalText_toDigits (number : Nat) : NaturalText (Nat.toDigits 10 number) number where
  someDigits := Nat.toDigits_ne_nil
  areDigits := RealFormat.digits_toDigits number
  denotes := Nat.ofDigitChars_ten_toDigits

/-- The decimal text of an integer is a text of it. -/
theorem integerText_toString (number : Int) : IntegerText (toString number).toList number := by
  rw [toList_toString]
  have magnitude := naturalText_toDigits number.natAbs
  by_cases negative : number < 0
  · have isNegative := IntegerText.negative magnitude
    rw [Int.ofNat_natAbs_of_nonpos negative.le, neg_neg] at isNegative
    simpa [minusSign, negative] using isNegative
  · have isNatural := IntegerText.natural magnitude
    rw [Int.natAbs_of_nonneg (not_lt.mp negative)] at isNatural
    simpa [minusSign, negative] using isNatural

/-- The decimal text of a natural number is a text of it. -/
theorem naturalText_toString (number : Nat) : NaturalText (toString number).toList number := by
  have digits : (toString number).toList = Nat.toDigits 10 number := Nat.toList_repr
  rw [digits]
  exact naturalText_toDigits number

/-- A finite real is written as a real literal that denotes it. -/
theorem spells_real {real : Float} (finite : real.isFinite = true) :
    ∃ literal, Spells (RealFormat.plain.write real).toList (.real literal) ∧
      RealText literal.toList real := by
  have noPlus : RealFormat.plain.plusSign = false := rfl
  obtain ⟨numeral, isReal, chars, value⟩ := RealFormat.reads_write noPlus finite
  refine ⟨RealFormat.plain.write real, ?_, ?_⟩
  · have spells := spells_numeral (Binary64.isNegative real) numeral
    rw [literalToken, numberToken, ← chars, String.ofList_toList] at spells
    simpa [isReal] using spells
  · rw [chars]
    have isNearest := (Decimal.isNearestReal_iff _).mpr value
    exact ⟨_, _, _, numeral.decimalText_chars _, isNearest⟩

end TimedCommands.Script
