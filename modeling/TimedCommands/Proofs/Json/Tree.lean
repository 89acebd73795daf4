import TimedCommands.Json.Tree
import TimedCommands.Proofs.Json.Number
import TimedCommands.Proofs.Json.Text

/-!
# Trees read back

A written number, text or null is read as one tree wherever an item may end (`Reads`). What is put
together of such parts is read as what it is put together of: a list with separators and brackets
as an array (`readTree_array`), and names with values as members (`readMembers_member`,
`readMembers_last`). Each step of reading is paid for by a part.
-/

namespace TimedCommands.Json

/-- Where no blank is, none is skipped. -/
theorem skipBlanks_of_head {first : Char} {rest : List Char}
    (noBlank : first ∉ [' ', '\t', '\n', '\r']) : skipBlanks (first :: rest) = first :: rest := by
  rw [skipBlanks, List.dropWhile_cons_of_neg]
  simpa [and_assoc] using noBlank

/-- A literal begins with a minus sign or a digit. -/
theorem head_of_readLiteral {chars rest : List Char} {literal : Literal}
    (reads : readLiteral? chars = some (literal, rest)) :
    ∃ first others, chars = first :: others ∧ (first = '-' ∨ first.isDigit = true) := by
  cases chars with
  | nil => cases reads
  | cons first others =>
    refine ⟨first, others, rfl, ?_⟩
    by_contra other
    rw [not_or, Bool.not_eq_true] at other
    have noWhole : readWhole? (first :: others) = none := by
      unfold readWhole?
      split
      case h_1 isZero =>
        cases isZero
        cases other.2
      case h_2 => simp [Decimal.spanDigits, List.takeWhile_cons_of_neg, other.2]
    unfold readLiteral? at reads
    split at reads
    case h_1 isMinus =>
      cases isMinus
      exact other.1 rfl
    case h_2 => simp [readUnsigned?, noWhole] at reads

/-- A tree that begins like a literal is one. -/
theorem readTree_literal {chars rest : List Char} {literal : Literal}
    (reads : readLiteral? chars = some (literal, rest)) (steps : Nat) :
    readTree? (steps + 1) chars = some (.number literal, rest) := by
  obtain ⟨first, others, rfl, starts⟩ := head_of_readLiteral reads
  have noOther : first ∉ [' ', '\t', '\n', '\r', 'n', 't', 'f', '"', '[', '\x7b'] := by
    intro other
    simp only [List.mem_cons, List.not_mem_nil, or_false] at other
    rcases starts with rfl | isDigit
    · simp at other
    · rcases other with rfl | rfl | rfl | rfl | rfl | rfl | rfl | rfl | rfl | rfl <;> cases isDigit
  rw [readTree?, skipBlanks_of_head (by simp_all)]
  split
  case h_7 => simp [reads]
  all_goals
    rename_i isOther
    cases isOther
    simp at noOther

/-- A text in quotes is read as that text. -/
theorem readTree_quote (text : String) (steps : Nat) (next : List Char) :
    readTree? (steps + 1) (quote text ++ next) = some (.text (piecesOf text), next) := by
  rw [quote, List.cons_append, List.cons_append, List.append_assoc, readTree?,
    skipBlanks_of_head (by decide)]
  simp [readPieces_quote]

/-- Characters that are read as a tree wherever an item ends behind them. -/
structure Reads (chars : List Char) (tree : Tree) : Prop where
  starts : ∃ first rest, chars = first :: rest ∧ first ∉ [' ', '\t', '\n', '\r', ']']
  reads : ∀ steps next, EndsItem next → readTree? (steps + 1) (chars ++ next) = some (tree, next)

/-- A text in quotes is read in front of anything that ends an item. -/
theorem reads_quote (text : String) : Reads (quote text) (.text (piecesOf text)) where
  starts := ⟨_, _, rfl, by decide⟩
  reads steps next _ := readTree_quote text steps next

/-- The null is read in front of anything that ends an item. -/
theorem reads_null : Reads "null".toList .null where
  starts := ⟨_, _, rfl, by decide⟩
  reads steps next _ := by
    change readTree? (steps + 1) ('n' :: 'u' :: 'l' :: 'l' :: next) = _
    rw [readTree?, skipBlanks_of_head (by decide)]
    rfl

/-- A number is read as a tree wherever it is read as a literal. -/
theorem reads_literal {chars : List Char} {literal : Literal}
    (reads : ∀ next, EndsItem next → readLiteral? (chars ++ next) = some (literal, next)) :
    Reads chars (.number literal) where
  starts := by
    have alone := reads [] nofun
    rw [List.append_nil] at alone
    obtain ⟨first, rest, isText, starts⟩ := head_of_readLiteral alone
    refine ⟨first, rest, isText, fun other => ?_⟩
    simp only [List.mem_cons, List.not_mem_nil, or_false] at other
    rcases starts with rfl | isDigit
    · simp at other
    · rcases other with rfl | rfl | rfl | rfl | rfl <;> cases isDigit
  reads steps next ends := readTree_literal (reads next ends) steps

/-- Items with commas between them are read up to the closing bracket. -/
theorem readItems_intercalate {parts : List (List Char)} {trees : List Tree}
    (reads : List.Forall₂ Reads parts trees) (some : parts ≠ []) {steps : Nat}
    (enough : parts.length < steps) (next : List Char) :
    readItems? steps ([','].intercalate parts ++ ']' :: next) = .some (trees, next) := by
  induction reads generalizing steps with
  | nil => exact absurd rfl some
  | @cons part tree parts trees first rest ih =>
    rw [List.length_cons] at enough
    obtain ⟨steps, rfl⟩ : ∃ fewer, steps = fewer + 2 := ⟨steps - 2, by omega⟩
    cases rest with
    | nil =>
      have item := first.reads steps (']' :: next) (by rintro _ ⟨⟩; decide)
      rw [List.intercalate_singleton, readItems?, item]
      simp [skipBlanks_of_head]
    | @cons second other parts trees _ _ =>
      have fewer : (second :: parts).length < steps + 1 := by omega
      have items := ih (List.cons_ne_nil _ _) fewer
      have item := first.reads steps (',' :: ([','].intercalate (second :: parts) ++ ']' :: next))
        (by rintro _ ⟨⟩; decide)
      rw [List.intercalate_cons_cons, List.append_assoc, List.append_assoc, List.singleton_append,
        readItems?, item]
      simp [skipBlanks_of_head, items]

/-- Parts between separators and brackets are read as an array. -/
theorem readTree_array {parts : List (List Char)} {trees : List Tree}
    (reads : List.Forall₂ Reads parts trees) {steps : Nat} (enough : parts.length < steps)
    (next : List Char) :
    readTree? (steps + 1) ('[' :: ([','].intercalate parts ++ ']' :: next)) =
      some (.array trees, next) := by
  rw [readTree?, skipBlanks_of_head (by decide)]
  cases reads with
  | nil => simp [skipBlanks_of_head]
  | @cons part tree parts trees first rest =>
    have items := readItems_intercalate (.cons first rest) (List.cons_ne_nil _ _) enough next
    obtain ⟨char, others, rfl, noBlank⟩ := first.starts
    obtain ⟨more, isText⟩ : ∃ more,
        [','].intercalate ((char :: others) :: parts) ++ ']' :: next = char :: more := by
      cases parts <;> simp [List.intercalate_cons_cons]
    have noBracket : char ≠ ']' := by
      rintro rfl
      simp at noBlank
    have skip : skipBlanks (char :: more) = char :: more := skipBlanks_of_head (by simp_all)
    rw [isText] at items ⊢
    simp only [skip]
    split
    case h_1 isBracket =>
      cases isBracket
      exact absurd rfl noBracket
    case h_2 => simp [items]

/-- A name with a value and a separator is read as a member before others. -/
theorem readMembers_member (name : String) {value more : List Char} {tree : Tree} {steps : Nat}
    (reads : readTree? steps (value ++ ',' :: more) = some (tree, ',' :: more)) :
    readMembers? (steps + 1) (quote name ++ ':' :: (value ++ ',' :: more)) =
      (readMembers? steps more).map fun (members, after) => ((piecesOf name, tree) :: members, after) := by
  rw [quote, List.cons_append, List.cons_append, List.append_assoc, readMembers?,
    skipBlanks_of_head (by decide)]
  cases members : readMembers? steps more <;>
    simp [readPieces_quote, skipBlanks_of_head, reads, members]

/-- A name with a value and a brace is read as the last member. -/
theorem readMembers_last (name : String) {value next : List Char} {tree : Tree} {steps : Nat}
    (reads : readTree? steps (value ++ '\x7d' :: next) = some (tree, '\x7d' :: next)) :
    readMembers? (steps + 1) (quote name ++ ':' :: (value ++ '\x7d' :: next)) =
      some ([(piecesOf name, tree)], next) := by
  rw [quote, List.cons_append, List.cons_append, List.append_assoc, readMembers?,
    skipBlanks_of_head (by decide)]
  simp [readPieces_quote, skipBlanks_of_head, reads]

/-- Members between braces are read as an object. -/
theorem readTree_object (name : String) {more next : List Char} {members : List (List Piece × Tree)}
    {steps : Nat} (reads : readMembers? steps (quote name ++ more) = some (members, next)) :
    readTree? (steps + 1) ('\x7b' :: (quote name ++ more)) = some (.object members, next) := by
  rw [readTree?, skipBlanks_of_head (by decide)]
  simp only [quote, List.cons_append] at reads ⊢
  simp [skipBlanks_of_head, reads, -List.append_assoc]

end TimedCommands.Json
