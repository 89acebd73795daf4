import Mathlib.Data.String.Basic
import TimedCommands.Text.Position

/-!
# Slices of a source

A byte offset is a boundary of a source if a character begins or the source ends there, and a
span has the characters between two offsets. Whatever stands in a source at a number of bytes
behind its start is the slice of the span from there on (`slice_append`).
-/

namespace TimedCommands.Text

/-- Whether a character of the source begins at a byte offset, or the source ends there. -/
def IsBoundary (source : String) (offset : Nat) : Prop := String.Pos.Raw.IsValid source ⟨offset⟩

/-- The characters of a source in a span. -/
def slice (source : String) (span : Span) : List Char :=
  (String.Pos.Raw.extract source ⟨span.start⟩ ⟨span.stop⟩).toList

/-- No characters take no bytes. -/
@[simp] theorem byteLength_nil : byteLength [] = 0 := rfl

/-- Characters take the bytes of the first and those of the rest. -/
@[simp] theorem byteLength_cons (char : Char) (rest : List Char) :
    byteLength (char :: rest) = char.utf8Size + byteLength rest := rfl

/-- Texts one behind the other take the bytes of both. -/
@[simp] theorem byteLength_append (front back : List Char) :
    byteLength (front ++ back) = byteLength front + byteLength back := by
  induction front with
  | nil => simp
  | cons char front ih => simp [ih, Nat.add_assoc]

/-- The length of characters is that of their encoding. -/
theorem byteLength_eq_utf8Len (chars : List Char) : byteLength chars = String.utf8Len chars := by
  induction chars with
  | nil => rfl
  | cons char rest ih => rw [byteLength_cons, String.utf8Len_cons, ih, Nat.add_comm]

/-- The length of a text is that of its characters. -/
theorem byteLength_toList (source : String) : byteLength source.toList = source.utf8ByteSize := by
  rw [byteLength_eq_utf8Len, String.utf8Len_toList]

/-- A character takes at least one byte. -/
theorem byteLength_cons_pos (char : Char) (rest : List Char) : 0 < byteLength (char :: rest) :=
  Nat.lt_of_lt_of_le char.utf8Size_pos (Nat.le_add_right _ _)

/-- What stands between two parts of a source is the slice between them. -/
theorem slice_append {source : String} {front middle : List Char} (back : List Char)
    (isSource : source.toList = front ++ middle ++ back) :
    slice source ⟨byteLength front, byteLength (front ++ middle)⟩ = middle := by
  have isText : source = String.ofList (front ++ middle ++ back) := by
    rw [← isSource, String.ofList_toList]
  rw [slice, isText, byteLength_append, byteLength_eq_utf8Len, byteLength_eq_utf8Len,
    String.extract_of_valid, String.toList_ofList]

/-- The boundaries of a source are the lengths of its front parts. -/
theorem isBoundary_iff {source : String} {offset : Nat} :
    IsBoundary source offset ↔ ∃ front back, source.toList = front ++ back ∧ byteLength front = offset := by
  rw [IsBoundary, String.Pos.Raw.isValid_iff_exists_append]
  constructor
  · rintro ⟨front, back, rfl, isEnd⟩
    refine ⟨front.toList, back.toList, String.toList_append, ?_⟩
    rw [byteLength_toList]
    exact (congrArg String.Pos.Raw.byteIdx isEnd).symm
  · rintro ⟨front, back, isSource, rfl⟩
    refine ⟨String.ofList front, String.ofList back, ?_, ?_⟩
    · rw [← String.ofList_append, ← isSource, String.ofList_toList]
    · rw [String.rawEndPos_ofList, byteLength_eq_utf8Len]

/-- Between two parts of a text is a boundary. -/
theorem isBoundary_append {source : String} {front : List Char} (back : List Char)
    (isSource : source.toList = front ++ back) : IsBoundary source (byteLength front) :=
  isBoundary_iff.mpr ⟨front, back, isSource, rfl⟩

/-- The end of a text is a boundary. -/
theorem isBoundary_end (source : String) : IsBoundary source source.utf8ByteSize := by
  rw [← byteLength_toList]
  exact isBoundary_append [] (List.append_nil _).symm

end TimedCommands.Text
