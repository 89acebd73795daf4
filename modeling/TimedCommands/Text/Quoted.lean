import TimedCommands.Text.GraphemeExtend
import TimedCommands.Text.Unprintable

/-!
# Quoted text

A text value is shown between double quotes with every character that would be
ambiguous or invisible written as an escape: the quote and the backslash, the four
short escapes, and all unprintable characters and grapheme extenders by code point.
-/

namespace TimedCommands.Text

/-- The lower-case hexadecimal digits of a code point, without leading zeros. -/
def codePointEscape (char : Char) : List Char :=
  ['\\', 'u', '\x7b'] ++ Nat.toDigits 16 char.toNat ++ ['\x7d']

/-- The written form of one character inside quotes. -/
def quoteChar (char : Char) : List Char :=
  if char = '\x00' then ['\\', '0']
  else if char = '\t' then ['\\', 't']
  else if char = '\r' then ['\\', 'r']
  else if char = '\n' then ['\\', 'n']
  else if char = '\\' ∨ char = '"' then ['\\', char]
  else if isGraphemeExtend char || isUnprintable char then codePointEscape char
  else [char]

/-- The text between double quotes, ambiguous and invisible characters escaped. -/
def quoted (text : String) : String :=
  String.ofList ('"' :: text.toList.flatMap quoteChar ++ ['"'])

end TimedCommands.Text
