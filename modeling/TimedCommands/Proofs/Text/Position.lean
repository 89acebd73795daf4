import Mathlib.Data.Prod.Lex
import Mathlib.Order.Monotone.Defs
import TimedCommands.Proofs.Text.Slice

/-!
# Positions tell offsets apart

The position of a boundary is what its front part of the source comes to, one character after
the other (`ofOffset_append`), and every character moves it on in the order of lines and, on one
line, of columns (`key_lt_key_after`). So positions are in the order of the offsets they stand
for (`strictMonoOn_ofOffset`).
-/

namespace TimedCommands.Text.Position

/-- A position as a pair that is compared by its line and then by its column. -/
def key (position : Position) : Nat ×ₗ Nat := toLex (position.line, position.column)

/-- A character leads to a later position. -/
theorem key_lt_key_after (position : Position) (char : Char) :
    position.key < (position.after char).key := by
  rw [key, key, Prod.Lex.toLex_lt_toLex, after]
  split
  · exact .inl (Nat.lt_succ_self _)
  · exact .inr ⟨rfl, Nat.lt_succ_self _⟩

/-- Characters never lead back. -/
theorem key_le_key_foldl (position : Position) (chars : List Char) :
    position.key ≤ (chars.foldl after position).key := by
  induction chars generalizing position with
  | nil => exact le_rfl
  | cons char rest ih => exact (key_lt_key_after position char).le.trans (ih _)

/-- Characters lead to a later position, if there are any. -/
theorem key_lt_key_foldl (position : Position) {chars : List Char} (nonempty : chars ≠ []) :
    position.key < (chars.foldl after position).key := by
  obtain ⟨char, rest, rfl⟩ := List.exists_cons_of_ne_nil nonempty
  exact (key_lt_key_after position char).trans_le (key_le_key_foldl _ rest)

/-- Moving over as many bytes as a front part has moves over its characters. -/
theorem advance_append (front back : List Char) (position : Position) :
    advance (front ++ back) (byteLength front) position = front.foldl after position := by
  induction front generalizing position with
  | nil => cases back <;> simp [advance]
  | cons char front ih =>
    have some : byteLength (char :: front) ≠ 0 := (byteLength_cons_pos char front).ne'
    rw [List.cons_append, advance, if_neg some, byteLength_cons, Nat.add_sub_cancel_left, ih,
      List.foldl_cons]

/-- The position behind the front of a text is where its characters lead. -/
theorem ofOffset_append {source : String} {front back : List Char}
    (isSource : source.toList = front ++ back) :
    ofOffset source (byteLength front) = front.foldl after ⟨1, 1⟩ := by
  rw [ofOffset, isSource, advance_append]

/-- Later boundaries of a source are shown as later positions. -/
theorem strictMonoOn_ofOffset (source : String) :
    StrictMonoOn (fun offset => (ofOffset source offset).key) {offset | IsBoundary source offset} := by
  intro offset boundary later boundaryLater before
  obtain ⟨front, back, isSource, rfl⟩ := isBoundary_iff.mp boundary
  obtain ⟨longer, rest, isSame, rfl⟩ := isBoundary_iff.mp boundaryLater
  -- The shorter of two front parts is the front of the longer one.
  have shorter : front.length < longer.length := by
    by_contra notShorter
    have isPrefix : longer <+: front :=
      List.prefix_of_prefix_length_le ⟨rest, isSame.symm⟩ ⟨back, isSource.symm⟩ (by omega)
    obtain ⟨between, rfl⟩ := isPrefix
    rw [byteLength_append] at before
    omega
  obtain ⟨between, rfl⟩ : front <+: longer :=
    List.prefix_of_prefix_length_le ⟨back, isSource.symm⟩ ⟨rest, isSame.symm⟩ shorter.le
  have nonempty : between ≠ [] := by
    rintro rfl
    simp at shorter
  dsimp only
  rw [ofOffset_append isSource, ofOffset_append isSame, List.foldl_append]
  exact key_lt_key_foldl _ nonempty

end TimedCommands.Text.Position
