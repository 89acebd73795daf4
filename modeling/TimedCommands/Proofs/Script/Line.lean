import TimedCommands.Directive.Line
import TimedCommands.Proofs.Script.Grammar
import TimedCommands.Proofs.Script.NumberLiteral
import TimedCommands.Proofs.Script.TextLiteral

/-!
# The words of a directive line

Every word of a line was written for one field of its directive. Names that are identifiers and
no keywords, integers and times are always read back by their field, and a value is if it is
legible: a real that is finite, or a text without a character that is written by its code point
(`Entry.isShown_value_iff`). What is not legible is a word of another meaning or none at all,
never a keyword.
-/

namespace TimedCommands

/-- A name that is one word of a script and no keyword. -/
def IsName (name : String) : Prop := isIdentifier name = true ∧ Keyword.ofText? name = none

instance (name : String) : Decidable (IsName name) := inferInstanceAs (Decidable (_ ∧ _))

/-- Whether a value can be told from its shown form: a real has to be finite, and no character
of a text may be written by its code point. -/
def Value.IsLegible : Value → Prop
  | integer _ => True
  | real number => number.isFinite = true
  | text content => Text.IsLegible content

instance : DecidablePred Value.IsLegible
  | .integer _ => isTrue trivial
  | .real number => inferInstanceAs (Decidable (number.isFinite = true))
  | .text content => inferInstanceAs (Decidable (Text.IsLegible content))

namespace Action

/-- The values that an action is given, a lattice's numbers among them. -/
def values : Action → List Value
  | bindConstant _ value => [value]
  | bindSequence _ initial increment => [initial, increment]
  | bindLattice _ spec => (spec.origin ++ spec.lengths).map Value.real
  | _ => []

/-- Whether the line of an action has the form that its keyword asks for: its names are such, and
its lists and bounds have the right number and kind. -/
def IsWritable (arity : ArityLookup) : Action → Prop
  | addCommand typeName placeholders =>
    IsName typeName ∧ (∀ placeholder ∈ placeholders, IsName placeholder) ∧
      arity typeName = some placeholders.length
  | bindConstant target _ => IsName target.placeholder
  | bindSequence target initial increment =>
    IsName target.placeholder ∧ initial.isNumeric = true ∧ increment.isNumeric = true
  | bindArgument target source => IsName target.placeholder ∧ IsName source.placeholder
  | bindLattice rank spec => (∀ target ∈ spec.targets, IsName target.placeholder) ∧ spec.HasRank rank
  | _ => True

instance (arity : ArityLookup) : DecidablePred (IsWritable arity)
  | addCommand _ _ => inferInstanceAs (Decidable (_ ∧ _ ∧ _))
  | bindConstant _ _ => inferInstanceAs (Decidable (IsName _))
  | bindSequence _ _ _ => inferInstanceAs (Decidable (_ ∧ _ ∧ _))
  | bindArgument _ _ => inferInstanceAs (Decidable (_ ∧ _))
  | bindLattice _ _ => inferInstanceAs (Decidable (_ ∧ _))
  | createGroup | toggleCommand _ | toggleAll | switchCommand _ _ | switchAll _
  | executeSequence _ _ => isTrue trivial

end Action

namespace Directive

/-- Whether the line of a directive has the form that its keyword asks for. -/
def IsWritable (arity : ArityLookup) (directive : Directive) : Prop :=
  IsName directive.group ∧ directive.action.IsWritable arity

instance (arity : ArityLookup) : DecidablePred (IsWritable arity) :=
  fun _ => inferInstanceAs (Decidable (_ ∧ _))

/-- Whether all values of a directive are legible. -/
def IsLegible (directive : Directive) : Prop :=
  ∀ value ∈ directive.action.values, value.IsLegible

instance : DecidablePred IsLegible :=
  fun directive => List.decidableBAll _ directive.action.values

end Directive

namespace Script

/-- A word of a line and the field that it was written for. -/
structure Entry where
  word : String
  field : Field

namespace Entry

def time (time : Time) : Entry := ⟨toString time.toNat, Field.time time⟩

def name (name : String) : Entry := ⟨name, Field.name name⟩

def integer (number : Int64) : Entry := ⟨toString number.toInt, Field.integer number⟩

def value (value : Value) : Entry := ⟨value.shown, Field.value value⟩

def number (value : Value) : Entry := ⟨value.shown, Field.number value⟩

def real (number : Float) : Entry := ⟨RealFormat.plain.write number, Field.real number⟩

/-- The word is one token, and the field takes it. -/
def IsShown (entry : Entry) : Prop := ∃ token, Spells entry.word.toList token ∧ entry.field token

/-- The word is one token that is no keyword, or none, whatever follows it. -/
def IsPlain (entry : Entry) : Prop :=
  (∃ token, Spells entry.word.toList token ∧ token.isKeyword = false) ∨
    ∀ next, tokens? (entry.word.toList ++ next) = none

end Entry

/-- A text that may be a name spells that name. -/
theorem spells_name {name : String} (isName : IsName name) : Spells name.toList (.name name) := by
  have spells := spells_identifier isName.1
  rwa [wordToken, String.ofList_toList, isName.2] at spells

/-- The text of a keyword spells that keyword. -/
theorem spells_keyword (keyword : Keyword) : Spells keyword.text.toList (.keyword keyword) := by
  have isWord : isIdentifierChars keyword.text.toList = true := by cases keyword <;> decide
  have isKeyword : Keyword.ofText? keyword.text = some keyword := by cases keyword <;> decide
  have spells := spells_identifier isWord
  rwa [wordToken, String.ofList_toList, isKeyword] at spells

/-- What is not finite is written as a name, or behind a minus sign as no token. -/
theorem word_of_not_finite {real : Float} (notFinite : real.isFinite = false) :
    (∃ name, Spells (RealFormat.plain.write real).toList (.name name)) ∨
      ∀ next, tokens? ((RealFormat.plain.write real).toList ++ next) = none := by
  have word := RealFormat.plain.write_of_not_finite notFinite
  simp only [List.mem_cons, List.not_mem_nil, or_false] at word
  rcases word with infinity | negativeInfinity | notANumber
  · rw [infinity]
    exact .inl ⟨"inf", spells_name ⟨by decide, by decide⟩⟩
  · rw [negativeInfinity]
    exact .inr fun next => tokens_error rfl rfl rfl
  · rw [notANumber]
    exact .inl ⟨"NaN", spells_name ⟨by decide, by decide⟩⟩

namespace Entry

/-- A time is written as it is read. -/
theorem isShown_time (time : Time) : (Entry.time time).IsShown :=
  ⟨_, spells_natural time.toNat, _, rfl, naturalText_toString time.toNat⟩

/-- A name is written as it is read, if it may be one. -/
theorem isShown_name {name : String} (isName : IsName name) : (Entry.name name).IsShown :=
  ⟨_, spells_name isName, rfl⟩

/-- An integer is written as it is read. -/
theorem isShown_integer (number : Int64) : (Entry.integer number).IsShown :=
  ⟨_, spells_integer number.toInt, _, rfl, integerText_toString number.toInt⟩

/-- A word that is one token is shown if its field takes that token. -/
theorem isShown_iff (entry : Entry) {token : Token} (spells : Spells entry.word.toList token) :
    entry.IsShown ↔ entry.field token := by
  constructor
  · rintro ⟨other, spellsOther, takes⟩
    rwa [spells.unique spellsOther]
  · intro takes
    exact ⟨token, spells, takes⟩

/-- What is not even lexed is not written as it is read. -/
theorem not_isShown (entry : Entry) (noTokens : ∀ next, tokens? (entry.word.toList ++ next) = none) :
    ¬ entry.IsShown := by
  rintro ⟨token, spells, -⟩
  exact not_spells noTokens token spells

/-- The word of a real is taken by a field of reals exactly if the real is finite. -/
theorem isShown_write_iff {number : Float} {field : Field}
    (takesReal : ∀ literal, field (.real literal) ↔ RealText literal.toList number)
    (takesNoName : ∀ name, ¬ field (.name name)) :
    (Entry.mk (RealFormat.plain.write number) field).IsShown ↔ number.isFinite = true := by
  cases finite : number.isFinite with
  | true =>
    obtain ⟨literal, spells, denotes⟩ := spells_real finite
    exact iff_of_true ⟨_, spells, (takesReal literal).mpr denotes⟩ rfl
  | false =>
    refine iff_of_false ?_ Bool.false_ne_true
    rcases word_of_not_finite finite with ⟨name, spells⟩ | noTokens
    · exact fun shown => takesNoName name ((isShown_iff ⟨_, field⟩ spells).mp shown)
    · exact not_isShown ⟨_, field⟩ noTokens

/-- A real is written as it is read exactly if it is finite. -/
theorem isShown_real_iff (number : Float) :
    (Entry.real number).IsShown ↔ number.isFinite = true :=
  isShown_write_iff (by simp [Field.real]) (by simp [Field.real])

/-- A value is written as it is read exactly if it is legible. -/
theorem isShown_value_iff (value : Value) : (Entry.value value).IsShown ↔ value.IsLegible := by
  cases value with
  | integer number => exact iff_of_true (isShown_integer number) trivial
  | real number =>
    exact isShown_write_iff (by simp [Field.value, Field.properReal])
      (by simp [Field.value, Field.properReal])
  | text content =>
    have spells : Spells (Entry.value (.text content)).word.toList _ := spells_quoted content
    rw [isShown_iff _ spells, Value.IsLegible, Text.IsLegible, ← unescape_quoted_iff]
    refine text_field_iff.trans ?_
    constructor
    · rintro ⟨raw, isRaw, same⟩
      obtain rfl := Token.text.inj isRaw
      rw [← String.toList_inj] at same
      simpa using same
    · intro same
      refine ⟨_, rfl, ?_⟩
      rw [String.toList_ofList, same, String.ofList_toList]

/-- A number is written as it is read exactly if it is legible. -/
theorem isShown_number_iff {value : Value} (numeric : value.isNumeric = true) :
    (Entry.number value).IsShown ↔ value.IsLegible := by
  rw [← isShown_value_iff]
  cases value with
  | text content => cases numeric
  | _ => rfl

/-- What may be a name is not written as a keyword. -/
theorem isPlain_name {name : String} (isName : IsName name) : (Entry.name name).IsPlain :=
  .inl ⟨_, spells_name isName, rfl⟩

/-- No real is written as a keyword: it is digits, or a word that is no token. -/
theorem isPlain_real (number : Float) : (Entry.real number).IsPlain := by
  cases finite : number.isFinite with
  | true =>
    obtain ⟨literal, spells, -⟩ := spells_real finite
    exact .inl ⟨_, spells, rfl⟩
  | false =>
    rcases word_of_not_finite finite with ⟨name, spells⟩ | noTokens
    · exact .inl ⟨_, spells, rfl⟩
    · exact .inr noTokens

/-- No integer is written as a keyword. -/
theorem isPlain_integer (number : Int64) : (Entry.integer number).IsPlain :=
  .inl ⟨_, spells_integer number.toInt, rfl⟩

/-- No value is written as a keyword. -/
theorem isPlain_value (value : Value) : (Entry.value value).IsPlain := by
  cases value with
  | integer number => exact isPlain_integer number
  | real number => exact isPlain_real number
  | text content => exact .inl ⟨_, spells_quoted content, rfl⟩

end Entry

/-- The entries of a slot. -/
def slotEntries (slot : RawSlot) : List Entry :=
  [Entry.integer slot.command, Entry.name slot.placeholder]

/-- The entries of a lattice, its packing included. -/
def latticeEntries (spec : LatticeSpec) : List Entry :=
  spec.targets.flatMap slotEntries ++ spec.dims.map Entry.integer ++ spec.origin.map Entry.real
    ++ spec.lengths.map Entry.real ++ [Entry.name spec.packing.name]

/-- The entries of the fields that follow the group. -/
def actionEntries : Action → List Entry
  | .createGroup => []
  | .addCommand typeName placeholders => Entry.name typeName :: placeholders.map Entry.name
  | .bindConstant target value => slotEntries target ++ [Entry.value value]
  | .bindSequence target initial increment =>
    slotEntries target ++ [Entry.number initial, Entry.number increment]
  | .bindArgument target source => slotEntries target ++ slotEntries source
  | .bindLattice _ spec => latticeEntries spec
  | .toggleCommand command => [Entry.integer command]
  | .toggleAll => []
  | .switchCommand _ command => [Entry.integer command]
  | .switchAll _ => []
  | .executeSequence total period => [Entry.integer total, Entry.integer period]

/-- The entries of a directive. -/
def directiveEntries (directive : Directive) : List Entry :=
  Entry.time directive.time :: Entry.name directive.group :: actionEntries directive.action

/-- The words of a directive's entries are those that its line consists of. -/
theorem words_actionEntries (action : Action) :
    (actionEntries action).map Entry.word = action.words := by
  have slot (slot : RawSlot) : (slotEntries slot).map Entry.word = slot.words := rfl
  cases action with
  | bindLattice rank spec =>
    simp only [actionEntries, Action.words, latticeEntries, LatticeSpec.words, List.map_append,
      List.map_flatMap, List.map_map, slot]
    rfl
  | addCommand typeName placeholders =>
    simp [actionEntries, Action.words, Entry.name, Function.comp_def]
  | _ => rfl

/-- The line of a directive is its keyword and the words of its entries. -/
theorem line_eq (directive : Directive) :
    directive.line = String.intercalate " "
      (directive.action.keyword.text :: (directiveEntries directive).map Entry.word) := by
  rw [directiveEntries, List.map_cons, List.map_cons, words_actionEntries]
  rfl

/-- The entries of a lattice are its fields, and the name of its packing at the end. -/
theorem fields_latticeEntries (spec : LatticeSpec) :
    (latticeEntries spec).map Entry.field = latticeFields spec ++ [Field.name spec.packing.name] := by
  have slot (slot : RawSlot) : (slotEntries slot).map Entry.field = slotFields slot := rfl
  simp only [latticeEntries, latticeFields, List.map_append, List.map_flatMap, List.map_map, slot]
  rfl

/-- A spelling of a lattice that is as long as its line names the packing. -/
theorem fields_of_latticeSpelled {axes : Nat} {spec : LatticeSpec} {fields : List Field}
    (spelled : LatticeSpelled axes spec fields) (length : fields.length = (latticeEntries spec).length) :
    fields = (latticeEntries spec).map Entry.field := by
  have count : (latticeEntries spec).length =
      (latticeFields spec ++ [Field.name spec.packing.name]).length := by
    rw [← fields_latticeEntries, List.length_map]
  rw [count] at length
  rw [fields_latticeEntries]
  cases spelled with
  | lattice hasAxes packing spelled =>
    rcases packingSpelled_iff.mp spelled with rfl | ⟨-, rfl⟩
    · rfl
    · simp at length

/-- The fields of a line are those of its entries: a line leaves no packing out. -/
theorem fields_of_spelled {arity : ArityLookup} {keyword : Keyword} {action : Action}
    {fields : List Field} (spelled : Spelled arity keyword action fields)
    (length : fields.length = (actionEntries action).length) :
    fields = (actionEntries action).map Entry.field := by
  cases spelled with
  | bindLattice2d spec fields spelled => exact fields_of_latticeSpelled spelled length
  | bindLattice3d spec fields spelled => exact fields_of_latticeSpelled spelled length
  | addCommand typeName placeholders known =>
    simp [actionEntries, Entry.name, Function.comp_def]
  | _ => rfl

/-- The entries of a directive that can be written spell it. -/
theorem spelled_entries {arity : ArityLookup} {action : Action} (writable : action.IsWritable arity) :
    Spelled arity action.keyword action ((actionEntries action).map Entry.field) := by
  cases action with
  | addCommand typeName placeholders =>
    rw [actionEntries, List.map_cons, List.map_map]
    exact .addCommand typeName placeholders writable.2.2
  | bindLattice rank spec =>
    have spelled := LatticeSpelled.lattice spec writable.2 _ (packingSpelled_iff.mpr (.inl rfl))
    rw [← fields_latticeEntries] at spelled
    cases rank with
    | two => exact .bindLattice2d spec _ spelled
    | three => exact .bindLattice3d spec _ spelled
  | bindConstant target value => exact .bindConstant target value
  | bindSequence target initial increment => exact .bindSequence target initial increment
  | bindArgument target source => exact .bindArgument target source
  | toggleCommand command => exact .toggleCommand command
  | switchCommand enabled command =>
    cases enabled with
    | true => exact .enableCommand command
    | false => exact .disableCommand command
  | switchAll enabled =>
    cases enabled with
    | true => exact .enableAll
    | false => exact .disableAll
  | createGroup => exact .createGroup
  | toggleAll => exact .toggleAll
  | executeSequence total period => exact .executeSequence total period

/-- A slot is written as it is read, if its placeholder may be a name. -/
theorem isShown_slotEntries {slot : RawSlot} (isName : IsName slot.placeholder) :
    ∀ entry ∈ slotEntries slot, entry.IsShown := by
  simp [slotEntries, Entry.isShown_integer, Entry.isShown_name isName]

/-- The name of a packing may be a name. -/
theorem isName_packing (packing : Packing) : IsName packing.name := by
  cases packing <;> exact ⟨by decide, by decide⟩

/-- Of the words of a writable action, only those of its values can fail to be read back. -/
theorem isShown_actionEntries_iff {arity : ArityLookup} {action : Action}
    (writable : action.IsWritable arity) :
    (∀ entry ∈ actionEntries action, entry.IsShown) ↔ ∀ value ∈ action.values, value.IsLegible := by
  cases action with
  | addCommand typeName placeholders =>
    obtain ⟨isName, areNames, -⟩ := writable
    have shown : ∀ placeholder ∈ placeholders, (Entry.name placeholder).IsShown :=
      fun placeholder member => Entry.isShown_name (areNames placeholder member)
    simpa [actionEntries, Action.values, Entry.isShown_name isName] using shown
  | bindConstant target value =>
    have slot := isShown_slotEntries writable
    simp only [actionEntries, List.forall_mem_append, List.forall_mem_singleton, Action.values,
      Entry.isShown_value_iff]
    exact and_iff_right slot
  | bindSequence target initial increment =>
    obtain ⟨isName, initialNumeric, incrementNumeric⟩ := writable
    have slot := isShown_slotEntries isName
    simp only [actionEntries, List.forall_mem_append, List.forall_mem_cons, List.not_mem_nil,
      false_imp_iff, implies_true, and_true, Action.values,
      Entry.isShown_number_iff initialNumeric, Entry.isShown_number_iff incrementNumeric]
    exact and_iff_right slot
  | bindArgument target source =>
    have slot := isShown_slotEntries writable.1
    have otherSlot := isShown_slotEntries writable.2
    simp only [actionEntries, List.forall_mem_append, Action.values]
    exact iff_of_true ⟨slot, otherSlot⟩ nofun
  | bindLattice rank spec =>
    have slots : ∀ target ∈ spec.targets, ∀ entry ∈ slotEntries target, entry.IsShown :=
      fun target member => isShown_slotEntries (writable.1 target member)
    have packing := Entry.isShown_name (isName_packing spec.packing)
    simp only [actionEntries, latticeEntries, List.forall_mem_append, List.forall_mem_singleton,
      List.forall_mem_flatMap, List.forall_mem_map, Action.values, Value.IsLegible, Entry.isShown_integer,
      Entry.isShown_real_iff, packing, implies_true, and_true, and_assoc]
    exact and_iff_right slots
  | _ => simp [actionEntries, Action.values, Entry.isShown_integer]

/-- Nothing behind the keyword of a line is written as a keyword. -/
theorem isPlain_actionEntries {arity : ArityLookup} {action : Action}
    (writable : action.IsWritable arity) : ∀ entry ∈ actionEntries action, entry.IsPlain := by
  have slot {slot : RawSlot} (isName : IsName slot.placeholder) :
      ∀ entry ∈ slotEntries slot, entry.IsPlain := by
    simp [slotEntries, Entry.isPlain_integer, Entry.isPlain_name isName]
  have number (value : Value) : (Entry.number value).IsPlain := Entry.isPlain_value value
  cases action with
  | addCommand typeName placeholders =>
    obtain ⟨isName, areNames, -⟩ := writable
    have plain : ∀ placeholder ∈ placeholders, (Entry.name placeholder).IsPlain :=
      fun placeholder member => Entry.isPlain_name (areNames placeholder member)
    simpa [actionEntries, Entry.isPlain_name isName] using plain
  | bindConstant target value =>
    simp only [actionEntries, List.forall_mem_append, List.forall_mem_singleton]
    exact ⟨slot writable, Entry.isPlain_value value⟩
  | bindSequence target initial increment =>
    simp only [actionEntries, List.forall_mem_append, List.forall_mem_cons]
    exact ⟨slot writable.1, number initial, number increment, nofun⟩
  | bindArgument target source =>
    simp only [actionEntries, List.forall_mem_append]
    exact ⟨slot writable.1, slot writable.2⟩
  | bindLattice rank spec =>
    have slots : ∀ target ∈ spec.targets, ∀ entry ∈ slotEntries target, entry.IsPlain :=
      fun target member => slot (writable.1 target member)
    have packing := Entry.isPlain_name (isName_packing spec.packing)
    simp only [actionEntries, latticeEntries, List.forall_mem_append, List.forall_mem_singleton,
      List.forall_mem_flatMap, List.forall_mem_map, Entry.isPlain_integer, Entry.isPlain_real,
      packing, implies_true, and_true]
    exact slots
  | _ => simp [actionEntries, Entry.isPlain_integer]

end Script

end TimedCommands
