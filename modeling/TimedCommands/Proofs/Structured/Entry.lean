import TimedCommands.Proofs.Binding.Progression
import TimedCommands.Proofs.Outcome
import TimedCommands.Proofs.Table
import TimedCommands.Structured.Decode
import TimedCommands.Structured.Encode

/-!
# Entries and the directives that they hold

Encoding a directive and decoding the entry gives back the directive (`decode_encode`). Each kind of
field is read back as it was written, integers as integers and reals as reals, since a tree keeps
them apart; the fields of an entry have names of their own, so each is found under its name.
-/

namespace TimedCommands.Structured

open TimedCommands.Yaml (Tree)

/-! Fields are read back as they are written. -/

/-- A time is read back from its integer. -/
@[simp] theorem readTime_encoded (time : Time) : readTime (.integer time.toNat) = .ok time := by
  have fits : (0 : Int) ≤ time.toNat ∧ (time.toNat : Int) < UInt64.size :=
    ⟨Int.natCast_nonneg _, Int.ofNat_lt.mpr time.toNat_lt⟩
  rw [readTime, if_pos fits, Int.toNat_natCast, UInt64.ofNat_toNat]

/-- An integer is read back. -/
@[simp] theorem readInteger_encodeInteger (number : Int64) :
    readInteger (encodeInteger number) = .ok number := by
  rw [encodeInteger, readInteger, Progression.fitInteger?_toInt]

/-- A real is read back, every bit of it. -/
@[simp] theorem readReal_encoded (number : Float) : readReal (.real number) = .ok number := rfl

/-- A name is read back from its text. -/
@[simp] theorem readName_encoded (name : String) : readName (.text name) = .ok name := rfl

/-- A value keeps its kind: an integral real is no integer, and a text is a text whatever it
spells. -/
@[simp] theorem readValue_encodeValue (value : Value) : readValue (encodeValue value) = .ok value := by
  cases value with
  | integer number =>
    rw [encodeValue, encodeInteger, readValue, Progression.fitInteger?_toInt]
  | real number => rfl
  | text content => rfl

/-- Items are read back if each of them is. -/
theorem readItems_map {α : Type} {readItem : Reader α} {encodeItem : α → Tree}
    (readsBack : ∀ item, readItem (encodeItem item) = .ok item) (items : List α) :
    readItems readItem (.sequence (items.map encodeItem)) = .ok items := by
  rw [readItems]
  induction items with
  | nil => rfl
  | cons item rest ih => simp [readsBack, ih]

/-- Names are read back from their list. -/
@[simp] theorem readItems_names (names : List String) :
    readItems readName (.sequence (names.map Tree.text)) = .ok names :=
  readItems_map readName_encoded names

/-- Integers are read back from their list. -/
@[simp] theorem readItems_integers (numbers : List Int64) :
    readItems readInteger (.sequence (numbers.map encodeInteger)) = .ok numbers :=
  readItems_map readInteger_encodeInteger numbers

/-- Reals are read back from their list. -/
@[simp] theorem readItems_reals (numbers : List Float) :
    readItems readReal (.sequence (numbers.map Tree.real)) = .ok numbers :=
  readItems_map readReal_encoded numbers

/-- A target is read back from its two parts. -/
@[simp] theorem readTarget_encodeSlot (target : RawSlot) :
    readTarget (.mapping (encodeSlot target)) = .ok target := by
  simp [readTarget, encodeSlot, part, readTargetFields, readTargetField]

/-- Targets are read back from their list. -/
@[simp] theorem readItems_targets (targets : List RawSlot) :
    readItems readTarget (.sequence (targets.map fun target => .mapping (encodeSlot target))) =
      .ok targets :=
  readItems_map readTarget_encodeSlot targets

/-- A packing is read back from its name. -/
@[simp] theorem readPacking_encoded (packing : Packing) :
    readPacking (.text packing.name) = .ok packing := by
  cases packing <;> rfl

/-- A keyword is read back from its text. -/
@[simp] theorem readVariant_keyword (keyword : Keyword) :
    readVariant Keyword.all Keyword.text (.text keyword.text) = .ok keyword := by
  cases keyword <;> rfl

/-! The parts of an entry are found under their names. -/

/-- Named parts as they stand in an entry. -/
def parts (entries : Entries) : List (Tree × Tree) := entries.map fun entry => part entry.1 entry.2

/-- The named parts of an encoded action. -/
def actionEntries (action : Action) : Entries :=
  (encodeAction action).filterMap fun (key, tree) =>
    match key with
    | .text name => some (name, tree)
    | _ => none

/-- The named parts of an encoded directive, but for its time. -/
def directiveEntries (directive : Directive) : Entries :=
  ("directive", .text directive.action.keyword.text) :: ("group", .text directive.group) ::
    actionEntries directive.action

/-- The entry of a directive is its time in front of its other parts. -/
theorem encode_eq (directive : Directive) :
    encode directive =
      .mapping (part "at" (.integer directive.time.toNat) :: parts (directiveEntries directive)) := by
  obtain ⟨time, group, action⟩ := directive
  cases action <;> rfl

/-- An entry that is a mapping is read from its parts, as it has no tag of its own. -/
theorem decode_mapping (parts : List (Tree × Tree)) :
    decode (.mapping parts) = decodeParts parts := by
  simp [decode, Tree.untag]

/-- The first part of that name is the time, whatever its tag. -/
theorem separateTime_cons_at (tree : Tree) (rest : List (Tree × Tree)) :
    separateTime none ((.text "at", tree) :: rest) =
      readTime tree.untag >>= fun time => separateTime (some time) rest := by
  simp [separateTime, Tree.untag]

/-- Any other part is kept as it is, unless it holds a tag. -/
theorem separateTime_cons {name : String} (other : name ≠ "at") (tree : Tree)
    (rest : List (Tree × Tree)) (time : Option Time) :
    separateTime time ((.text name, tree) :: rest) =
      if tree.hasTag then .error .taggedPart
      else do
        let (time, entries) ← separateTime time rest
        return (time, (name, tree) :: entries) := by
  simp [separateTime, Tree.untag, other]

/-- Parts without a time and without tags are all kept. -/
theorem separateTime_parts {entries : Entries} (untimed : ∀ entry ∈ entries, entry.1 ≠ "at")
    (untagged : ∀ entry ∈ entries, entry.2.hasTag = false) (time : Option Time) :
    separateTime time (parts entries) = .ok (time, entries) := by
  induction entries with
  | nil => rfl
  | cons entry rest ih =>
    obtain ⟨name, tree⟩ := entry
    obtain ⟨notTime, untimedRest⟩ := List.forall_mem_cons.mp untimed
    obtain ⟨noTag, untaggedRest⟩ := List.forall_mem_cons.mp untagged
    change separateTime time ((.text name, tree) :: parts rest) = _
    rw [separateTime_cons notTime, if_neg (Bool.eq_false_iff.mp noTag), ih untimedRest untaggedRest]
    rfl

/-- Items have a tag if one of them has. -/
theorem itemsHaveTag_eq_false_iff {items : List Tree} :
    Tree.itemsHaveTag items = false ↔ ∀ item ∈ items, item.hasTag = false := by
  induction items with
  | nil => simp [Tree.itemsHaveTag]
  | cons item rest ih => simp [Tree.itemsHaveTag, ih]

/-- A sequence holds no tag if no item of it does. -/
theorem untagged_sequence_iff {items : List Tree} :
    (Tree.sequence items).hasTag = false ↔ ∀ item ∈ items, item.hasTag = false := by
  rw [Tree.hasTag, itemsHaveTag_eq_false_iff]

/-- A list of items that are written without tags holds none. -/
theorem untagged_map {α : Type} {encodeItem : α → Tree}
    (untagged : ∀ item, (encodeItem item).hasTag = false) (items : List α) :
    (Tree.sequence (items.map encodeItem)).hasTag = false := by
  rw [untagged_sequence_iff]
  exact List.forall_mem_map.mpr fun item _ => untagged item

/-- A value is written without a tag. -/
theorem untagged_encodeValue (value : Value) : (encodeValue value).hasTag = false := by
  cases value <;> rfl

/-- No part of an encoded directive has a tag. -/
theorem untagged_directiveEntries (directive : Directive) :
    ∀ entry ∈ directiveEntries directive, entry.2.hasTag = false := by
  have text (content : String) : (Tree.text content).hasTag = false := by rfl
  have integer (number : Int64) : (encodeInteger number).hasTag = false := by rfl
  have real (number : Float) : (Tree.real number).hasTag = false := by rfl
  have slot (target : RawSlot) : (Tree.mapping (encodeSlot target)).hasTag = false := by rfl
  obtain ⟨time, group, action⟩ := directive
  cases action with
  | bindLattice rank spec =>
    simp [directiveEntries, actionEntries, encodeAction, encodeLattice, part, text,
      untagged_map integer, untagged_map real, untagged_map slot]
  | _ =>
    simp [directiveEntries, actionEntries, encodeAction, encodeSlot, part, text, integer,
      untagged_encodeValue, untagged_map text]

/-- The parts of a directive behind its time are not named as the time is. -/
theorem untimed_directiveEntries (directive : Directive) :
    ∀ entry ∈ directiveEntries directive, entry.1 ≠ "at" := by
  obtain ⟨time, group, action⟩ := directive
  cases action <;>
    simp [directiveEntries, actionEntries, encodeAction, encodeSlot, encodeLattice, part]

/-- No part of an encoded directive is given twice. -/
theorem distinct_directiveEntries (directive : Directive) :
    (Table.keys (directiveEntries directive)).Nodup := by
  obtain ⟨time, group, action⟩ := directive
  cases action <;>
    simp [Table.keys, directiveEntries, actionEntries, encodeAction, encodeSlot, encodeLattice, part]

/-- The directive of an entry in which no name occurs twice is found under its name. -/
theorem readKeyword_of_distinct {entries : Entries} (distinct : (Table.keys entries).Nodup) :
    readKeyword entries = required entries "directive" (readVariant Keyword.all Keyword.text) := by
  have once : entries.countP (fun entry => entry.1 = "directive") ≤ 1 := by
    have count := List.nodup_iff_count_le_one.mp distinct "directive"
    rw [Table.keys, List.count, List.countP_map] at count
    simpa [Function.comp_def, beq_eq_decide] using count
  rw [readKeyword]
  cases required entries "directive" (readVariant Keyword.all Keyword.text) with
  | error problem => rfl
  | ok keyword => simp [Nat.not_lt.mpr once]

/-- Each field of an encoded directive is of its kind. -/
theorem checkFields_directiveEntries (directive : Directive) :
    checkFields (fieldsOf directive.action.keyword) [] (directiveEntries directive) = .ok () := by
  obtain ⟨time, group, action⟩ := directive
  cases action with
  | bindLattice rank spec =>
    cases rank <;>
      simp [checkFields, fieldsOf, Action.keyword, directiveEntries, actionEntries, encodeAction,
        encodeLattice, part, groupField, latticeFields, FieldKind.check]
  | switchCommand enabled command =>
    cases enabled <;>
      simp [checkFields, fieldsOf, Action.keyword, directiveEntries, actionEntries, encodeAction,
        part, groupField, commandField, FieldKind.check]
  | switchAll enabled =>
    cases enabled <;>
      simp [checkFields, fieldsOf, Action.keyword, directiveEntries, actionEntries, encodeAction,
        groupField, FieldKind.check]
  | _ =>
    simp [checkFields, fieldsOf, Action.keyword, directiveEntries, actionEntries, encodeAction,
      encodeSlot, part, groupField, commandField, placeholderField, FieldKind.check]

/-- The action of a directive is read back from its parts. -/
theorem readAction_directiveEntries (directive : Directive) :
    readAction (directiveEntries directive) directive.action.keyword = .ok directive.action := by
  obtain ⟨time, group, action⟩ := directive
  cases action with
  | bindLattice rank spec =>
    cases rank <;>
      simp [readAction, readLattice, required, List.lookup_cons, Action.keyword, directiveEntries,
        actionEntries, encodeAction, encodeLattice, part]
  | switchCommand enabled command =>
    cases enabled <;>
      simp [readAction, required, List.lookup_cons, Action.keyword, directiveEntries, actionEntries,
        encodeAction, part]
  | switchAll enabled => cases enabled <;> rfl
  | _ =>
    simp [readAction, readSlot, required, List.lookup_cons, Action.keyword, directiveEntries,
      actionEntries, encodeAction, encodeSlot, part]

/-- An encoded directive is decoded as itself. -/
theorem decode_encode (directive : Directive) : decode (encode directive) = .ok directive := by
  have separated : separateTime none
      (part "at" (.integer directive.time.toNat) :: parts (directiveEntries directive)) =
        .ok (some directive.time, directiveEntries directive) := by
    have untagged : (Tree.integer directive.time.toNat).untag = .integer directive.time.toNat := by rfl
    rw [part, separateTime_cons_at, untagged, readTime_encoded, ok_bind]
    exact separateTime_parts (untimed_directiveEntries directive)
      (untagged_directiveEntries directive) _
  have keyword : readKeyword (directiveEntries directive) = .ok directive.action.keyword := by
    rw [readKeyword_of_distinct (distinct_directiveEntries directive)]
    exact readVariant_keyword _
  have group : required (directiveEntries directive) "group" readName = .ok directive.group := rfl
  rw [encode_eq, decode_mapping, decodeParts, separated]
  simp [keyword, group, checkFields_directiveEntries, readAction_directiveEntries]

end TimedCommands.Structured
