import TimedCommands.Proofs.Structured.Entry
import TimedCommands.Structured.Program

/-!
# Structured programs read back

Writing directives as a structured program and reading the program gives back the directives
(`read?_write`), provided that the document itself is read back: the tree that was written is the
tree that is read. That proviso is about documents alone and says nothing of directives.
-/

namespace TimedCommands

namespace Yaml

/-- The tree of a document, if the source is one that has a tree. -/
def Tree.ofSource? (source : String) : Option Tree := do
  let some document ← Node.ofSource? source | none
  ofNode? depthLimit document

/-! ### Trees are compared

Equality of trees is decided by the constructors, so that a single document can be checked to be
read back. -/

namespace Tree

mutual

/-- Whether two trees are equal. -/
def equals : Tree → Tree → Bool
  | null, null => true
  | boolean left, boolean right => left = right
  | integer left, integer right => left = right
  | real left, real right => left = right
  | text left, text right => left = right
  | sequence left, sequence right => equalsItems left right
  | mapping left, mapping right => equalsEntries left right
  | tagged left content, tagged right other => left = right && equals content other
  | _, _ => false

/-- Whether items are equal in pairs. -/
def equalsItems : List Tree → List Tree → Bool
  | [], [] => true
  | left :: lefts, right :: rights => equals left right && equalsItems lefts rights
  | _, _ => false

/-- Whether entries are equal in pairs. -/
def equalsEntries : List (Tree × Tree) → List (Tree × Tree) → Bool
  | [], [] => true
  | (key, value) :: lefts, (otherKey, otherValue) :: rights =>
    equals key otherKey && equals value otherValue && equalsEntries lefts rights
  | _, _ => false

end

mutual

/-- Trees that are found equal are equal. -/
theorem eq_of_equals (left right : Tree) (same : equals left right = true) : left = right := by
  match left with
  | null | boolean _ | integer _ | real _ | text _ => cases right <;> simp_all [equals]
  | sequence items =>
    cases right with
    | sequence others => rw [eq_of_equalsItems items others (by simpa only [equals] using same)]
    | _ => simp [equals] at same
  | mapping entries =>
    cases right with
    | mapping others => rw [eq_of_equalsEntries entries others (by simpa only [equals] using same)]
    | _ => simp [equals] at same
  | tagged tag content =>
    cases right with
    | tagged otherTag other =>
      rw [equals, Bool.and_eq_true, decide_eq_true_eq] at same
      rw [same.1, eq_of_equals content other same.2]
    | _ => simp [equals] at same

/-- Items that are found equal are equal. -/
theorem eq_of_equalsItems (lefts rights : List Tree) (same : equalsItems lefts rights = true) :
    lefts = rights := by
  match lefts, rights with
  | [], [] => rfl
  | left :: lefts, right :: rights =>
    rw [equalsItems, Bool.and_eq_true] at same
    rw [eq_of_equals left right same.1, eq_of_equalsItems lefts rights same.2]
  | [], _ :: _ | _ :: _, [] => simp [equalsItems] at same

/-- Entries that are found equal are equal. -/
theorem eq_of_equalsEntries (lefts rights : List (Tree × Tree))
    (same : equalsEntries lefts rights = true) : lefts = rights := by
  match lefts, rights with
  | [], [] => rfl
  | (key, value) :: lefts, (otherKey, otherValue) :: rights =>
    rw [equalsEntries, Bool.and_eq_true, Bool.and_eq_true] at same
    obtain ⟨⟨keys, values⟩, others⟩ := same
    rw [eq_of_equals key otherKey keys, eq_of_equals value otherValue values,
      eq_of_equalsEntries lefts rights others]
  | [], _ :: _ | _ :: _, [] => simp [equalsEntries] at same

end

mutual

/-- A tree is found equal to itself, also where it holds a real that is no number. -/
theorem equals_self : (tree : Tree) → equals tree tree = true
  | null | boolean _ | integer _ | real _ | text _ => by simp [equals]
  | sequence items => by rw [equals, equalsItems_self items]
  | mapping entries => by rw [equals, equalsEntries_self entries]
  | tagged tag content => by rw [equals, equals_self content, Bool.and_true, decide_eq_true rfl]

/-- Items are found equal to themselves. -/
theorem equalsItems_self : (items : List Tree) → equalsItems items items = true
  | [] => rfl
  | item :: items => by rw [equalsItems, equals_self item, equalsItems_self items, Bool.and_self]

/-- Entries are found equal to themselves. -/
theorem equalsEntries_self : (entries : List (Tree × Tree)) → equalsEntries entries entries = true
  | [] => rfl
  | (key, value) :: entries => by
    rw [equalsEntries, equals_self key, equals_self value, equalsEntries_self entries,
      Bool.and_self, Bool.and_self]

end

instance : DecidableEq Tree := fun left right =>
  decidable_of_iff (equals left right = true)
    ⟨eq_of_equals left right, fun same => same ▸ equals_self left⟩

end Tree

/-! ### What is written stays -/

/-- What has been written stays, and more may follow. -/
def Output.Extends (before after : Output) : Prop := before.reversed <:+ after.reversed

namespace Output

variable {first second third : Output}

/-- An output extends itself. -/
theorem Extends.refl (output : Output) : output.Extends output := List.suffix_rfl

/-- What extends an extension of an output extends that output. -/
theorem Extends.trans (early : first.Extends second) (late : second.Extends third) :
    first.Extends third :=
  List.IsSuffix.trans early late

/-- An output that is written to extends what it has extended before. -/
theorem Extends.put (extended : first.Extends second) (chars : List Char) :
    first.Extends (second.put chars) :=
  extended.trans (List.suffix_append ..)

/-- Writing extends an output. -/
theorem extends_put (output : Output) (chars : List Char) : output.Extends (output.put chars) :=
  List.suffix_append ..

/-- A blank extends an output, if one is wanted. -/
theorem extends_space (output : Output) (wanted : Bool) : output.Extends (output.space wanted) := by
  rw [space]
  split
  · exact output.extends_put _
  · exact .refl output

/-- A new line extends an output. -/
theorem extends_startLine (output : Output) (column : Nat) :
    output.Extends (output.startLine column) := by
  refine Extends.put ?_ _
  rw [endLine]
  split
  · exact .refl output
  · split
    · exact .refl output
    · exact output.extends_put _

/-- A text extends an output, in whichever style it is written. -/
theorem extends_putScalarText (output : Output) (column : Nat) (content : String) :
    output.Extends (output.putScalarText column content) := by
  rw [putScalarText]
  cases styleOf content <;> exact output.extends_put _

/-- An output is extended whether or not a new line is started. -/
theorem extends_started (output : Output) (column : Nat) (newLine : Bool) :
    output.Extends (if newLine then output.startLine column else output) := by
  split
  · exact output.extends_startLine column
  · exact .refl output

mutual

/-- A tree extends an output, wherever it is written. -/
theorem extends_putTree (output : Output) (column : Nat) (separated afterKey : Bool) :
    (tree : Tree) → output.Extends (output.putTree column separated afterKey tree)
  | .null | .boolean _ | .integer _ | .real _ | .sequence [] | .mapping [] => by
    rw [putTree]
    exact (output.extends_space separated).put _
  | .text content => by
    rw [putTree]
    exact (output.extends_space separated).trans (extends_putScalarText ..)
  | .sequence (first :: rest) => by
    rw [putTree]
    split
    · exact extends_putItems output _ _ _
    · exact (output.extends_space separated).trans (extends_putItems _ _ _ _)
  | .mapping (first :: rest) => by
    rw [putTree]
    split
    · exact extends_putEntries output _ _ _
    · exact (output.extends_space separated).trans (extends_putEntries _ _ _ _)
  | .tagged tag content => by
    rw [putTree]
    exact (((output.extends_space separated).put _).put _).trans (extends_putTree _ _ _ _ content)

/-- The items of a sequence extend an output. -/
theorem extends_putItems (output : Output) (column : Nat) (newLine : Bool) :
    (items : List Tree) → output.Extends (output.putItems column newLine items)
  | [] => by
    rw [putItems]
    exact .refl output
  | item :: rest => by
    rw [putItems]
    exact (((output.extends_started column newLine).put _).trans
      (extends_putTree _ _ _ _ item)).trans (extends_putItems _ _ _ rest)

/-- The entries of a mapping extend an output. -/
theorem extends_putEntries (output : Output) (column : Nat) (newLine : Bool) :
    (entries : List (Tree × Tree)) → output.Extends (output.putEntries column newLine entries)
  | [] => by
    rw [putEntries]
    exact .refl output
  | (key, value) :: rest => by
    have started := output.extends_started column newLine
    rw [putEntries]
    refine (Extends.trans ?_ (extends_putTree _ _ _ _ value)).trans (extends_putEntries _ _ _ rest)
    split
    · exact (((started.put _).trans (extends_putTree _ _ _ _ key)).trans
        (extends_startLine ..)).put _
    · exact (started.trans (extends_putTree _ _ _ _ key)).put _

end

/-- The end of a line extends an output. -/
theorem extends_endLine (output : Output) : output.Extends output.endLine := by
  have extended := output.extends_startLine 0
  simpa [startLine, indent, put] using extended

end Output

/-- A scalar of a type is no list. -/
theorem Tree.ofType?_ne_sequence (type content : String) (trees : List Tree) :
    Tree.ofType? type content ≠ some (.sequence trees) := by
  unfold Tree.ofType?
  repeat' split
  all_goals simp [Option.bind_eq_some_iff]

/-- A scalar is no list, however it is spelled and tagged. -/
theorem Tree.ofTaggedScalar?_ne_sequence (tag : Option String) (content : String) (plain : Bool)
    (trees : List Tree) : Tree.ofTaggedScalar? tag content plain ≠ some (.sequence trees) := by
  have noList : Tree.realOrText content ≠ .sequence trees := by
    rw [Tree.realOrText]
    split <;> simp
  have untagged : Tree.ofScalar? content plain ≠ some (.sequence trees) := by
    rw [Tree.ofScalar?, Tree.ofPlain?]
    repeat' split
    all_goals simp [noList]
  cases tag with
  | none => exact untagged
  | some given =>
    rw [Tree.ofTaggedScalar?]
    split
    case h_1 own =>
      cases found : Tree.ofScalar? content plain with
      | none => simp
      | some tree =>
        rw [found] at untagged
        simp only [Option.bind_eq_bind, Option.bind_some, Tree.label?, own]
        split <;> simp
    case h_2 =>
      dsimp only
      split
      · exact Tree.ofType?_ne_sequence _ _ trees
      · simp

/-- A tag says nothing of a list, unless it is one of the document's own. -/
theorem Tree.eq_of_label?_eq_sequence {tag : Option String} {tree : Tree} {trees : List Tree}
    (labelled : Tree.label? tag tree = some (.sequence trees)) : tree = .sequence trees := by
  rw [Tree.label?] at labelled
  split at labelled
  · exact Option.some.inj labelled
  · split at labelled <;> cases labelled

/-- What was written first comes first. -/
theorem mem_write_of_extends {tree : Tree} {chars : List Char}
    (extended : Output.Extends ⟨chars⟩ (Output.empty.putTree 0 false false tree)) :
    ∀ char ∈ chars, char ∈ (write tree).toList := by
  intro char member
  have kept := extended.trans (Output.extends_endLine _)
  rw [write, Output.text, String.toList_ofList, List.mem_reverse]
  exact kept.subset member

end Yaml

namespace Structured

open TimedCommands.Yaml (Node Tree)

/-- The document that directives are written as. -/
def document (directives : List Directive) : Tree := .sequence (directives.map encode)

/-- A written program is never taken for an empty source. -/
theorem not_isBlankText_write (directives : List Directive) :
    Text.isBlankText (write directives) = false := by
  have shows : ∃ char ∈ (write directives).toList, Text.isBlank char = false := by
    cases directives with
    | nil => exact ⟨'[', by decide, rfl⟩
    | cons directive rest =>
      have begins : Yaml.Output.Extends ⟨['-']⟩
          (Yaml.Output.empty.putTree 0 false false (document (directive :: rest))) := by
        rw [document, List.map_cons, Yaml.Output.putTree]
        exact (Yaml.Output.extends_putTree ⟨['-']⟩ _ _ _ (encode directive)).trans
          (Yaml.Output.extends_putItems ..)
      exact ⟨'-', Yaml.mem_write_of_extends begins _ List.mem_cons_self, rfl⟩
  obtain ⟨char, member, shown⟩ := shows
  rw [Text.isBlankText, List.all_eq_false]
  exact ⟨char, member, by simp [shown]⟩

/-- Entries of a document that has a list as its tree. -/
theorem entries?_of_ofNode? {node : Node} {trees : List Tree}
    (means : Tree.ofNode? Tree.depthLimit node = some (.sequence trees)) :
    entries? (some node) = some trees := by
  cases node with
  | scalar tag content plain =>
    exact absurd means (by simp [Tree.ofNode?, Tree.ofTaggedScalar?_ne_sequence])
  | sequence tag items =>
    rw [Tree.depthLimit, Tree.ofNode?] at means
    obtain ⟨found, read, labelled⟩ := Option.bind_eq_some_iff.mp means
    cases Tree.eq_of_label?_eq_sequence labelled
    exact read
  | mapping tag entries =>
    rw [Tree.depthLimit, Tree.ofNode?] at means
    obtain ⟨pairs, -, labelled⟩ := Option.bind_eq_some_iff.mp means
    split at labelled
    · cases labelled
    · cases Tree.eq_of_label?_eq_sequence labelled

/-- The entries of directives are read back, without an error and in order. -/
theorem readEntries_map_encode (place : Nat) (directives : List Directive) :
    readEntries place (directives.map encode) = ⟨directives, []⟩ := by
  induction directives generalizing place with
  | nil => rfl
  | cons directive rest ih => simp [readEntries, decode_encode, ih]

/-- Directives are read back from the program that is written of them, each with all of its fields
and every value in its kind, and no entry is malformed. All that is asked of documents is that the
tree that was written is the tree that is read. -/
theorem read?_write (directives : List Directive)
    (faithful : Tree.ofSource? (Yaml.write (document directives)) = some (document directives)) :
    read? (write directives) = some ⟨directives, []⟩ := by
  rw [Tree.ofSource?] at faithful
  obtain ⟨document?, found, means⟩ := Option.bind_eq_some_iff.mp faithful
  cases document? with
  | none => cases means
  | some node =>
    have listed := entries?_of_ofNode? means
    rw [read?, not_isBlankText_write]
    change (do
      let document ← Node.ofSource? (Yaml.write (document directives))
      let trees ← entries? document
      return readEntries 1 trees) = _
    rw [found, Option.bind_eq_bind, Option.bind_some, listed]
    exact congrArg some (readEntries_map_encode 1 directives)

/-- Values whose kinds are easily mistaken for one another, under names that spell other scalars. -/
def lookalikes : List Directive :=
  [⟨0, "", .createGroup⟩, ⟨4, "true", .bindSequence ⟨-1, "null"⟩ (.text "5.0") (.real 5.0)⟩]

/-- Texts that look like other scalars are read back as the texts that they are. -/
theorem read?_write_lookalikes :
    Tree.ofSource? (Yaml.write (document lookalikes)) = some (document lookalikes)
      ∧ read? (write lookalikes) = some ⟨lookalikes, []⟩ := by
  have faithful : Tree.ofSource? (Yaml.write (document lookalikes)) = some (document lookalikes) := by
    decide +kernel
  exact ⟨faithful, read?_write lookalikes faithful⟩

end Structured

end TimedCommands
