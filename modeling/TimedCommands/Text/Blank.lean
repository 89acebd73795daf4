/-!
# Blank characters

Characters with the `White_Space` property. A document made only of them is empty.
-/

namespace TimedCommands.Text

/-- The blank ranges, first and last code point, in ascending order. -/
def blankRanges : List (Nat × Nat) :=
  [(0x9, 0xD), (0x20, 0x20), (0x85, 0x85), (0xA0, 0xA0), (0x1680, 0x1680), (0x2000, 0x200A),
   (0x2028, 0x2029), (0x202F, 0x202F), (0x205F, 0x205F), (0x3000, 0x3000)]

/-- Whether a character is blank. -/
def isBlank (char : Char) : Bool :=
  blankRanges.any fun (first, last) => first ≤ char.toNat && char.toNat ≤ last

/-- Whether a text shows nothing. -/
def isBlankText (text : String) : Bool := text.toList.all isBlank

end TimedCommands.Text
