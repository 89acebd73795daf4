import Mathlib.Data.List.Forall2
import TimedCommands.Proofs.Script.Literals

/-!
# The grammar of directives

Every field of a directive is read from one token, so a directive is spelled by a list of
fields, and tokens are read as a directive exactly if they fit such a list one by one
(`readFields_eq_ok_iff`). The grammar has one production for each keyword (`Spelled`) and tells what
a literal means by its characters, so it owes nothing to the readers. A reader is compared with its
part of the grammar in both directions at once: `Reads` says which values it takes off the front of
a stream, and `ReadsAll` which it takes from a stream of which nothing may be left, as the packing
of a lattice can be told from what follows only by that.
-/

namespace TimedCommands

/-- Whether the lists of a lattice have one entry for each of a number of axes. -/
structure LatticeSpec.HasAxes (spec : LatticeSpec) (axes : Nat) : Prop where
  targets : spec.targets.length = axes
  dims : spec.dims.length = axes
  origin : spec.origin.length = axes
  lengths : spec.lengths.length = axes

instance (spec : LatticeSpec) (axes : Nat) : Decidable (spec.HasAxes axes) :=
  decidable_of_iff (spec.targets.length = axes ∧ spec.dims.length = axes ∧
      spec.origin.length = axes ∧ spec.lengths.length = axes)
    ⟨fun ⟨targets, dims, origin, lengths⟩ => ⟨targets, dims, origin, lengths⟩,
      fun hasAxes => ⟨hasAxes.targets, hasAxes.dims, hasAxes.origin, hasAxes.lengths⟩⟩

/-- Whether the lists of a lattice have one entry for each axis of a rank. -/
abbrev LatticeSpec.HasRank (spec : LatticeSpec) (rank : Rank) : Prop := spec.HasAxes rank.axes

namespace Script

/-- What a field asks of the token that it is read from. -/
abbrev Field := Token → Prop

namespace Field

/-- An integer literal of a time, which has no sign. -/
def time (time : Time) : Field :=
  fun token => ∃ literal, token = .integer literal ∧ NaturalText literal.toList time.toNat

/-- A given name. -/
def name (name : String) : Field := fun token => token = .name name

/-- An integer literal of a 64-bit integer. -/
def integer (number : Int64) : Field :=
  fun token => ∃ literal, token = .integer literal ∧ IntegerText literal.toList number.toInt

/-- A literal of a real with a fraction or an exponent. -/
def properReal (number : Float) : Field :=
  fun token => ∃ literal, token = .real literal ∧ RealText literal.toList number

/-- A literal of either kind that denotes a real. -/
def real (number : Float) : Field :=
  fun token => ∃ literal,
    (token = .integer literal ∨ token = .real literal) ∧ RealText literal.toList number

/-- A text literal that stands for a text. -/
def text (content : String) : Field :=
  fun token => ∃ raw, token = .text raw ∧ Unescaped raw.toList content.toList

/-- A literal that denotes a value and shows its kind. -/
def value : Value → Field
  | .integer number => integer number
  | .real number => properReal number
  | .text content => text content

/-- A literal of a number that shows its kind. A text is no number. -/
def number : Value → Field
  | .integer number => integer number
  | .real number => properReal number
  | .text _ => fun _ => False

end Field

/-- The fields of a slot. -/
def slotFields (slot : RawSlot) : List Field :=
  [Field.integer slot.command, Field.name slot.placeholder]

/-- The fields of a lattice before its packing. -/
def latticeFields (spec : LatticeSpec) : List Field :=
  spec.targets.flatMap slotFields ++ spec.dims.map Field.integer ++ spec.origin.map Field.real
    ++ spec.lengths.map Field.real

/-- The fields of a packing. A lattice that names none is rectangular. -/
inductive PackingSpelled : Packing → List Field → Prop where
  | rectangular : PackingSpelled .rectangular [Field.name "rectangular"]
  | triangular : PackingSpelled .triangular [Field.name "triangular"]
  | unnamed : PackingSpelled .rectangular []

/-- The fields of a lattice with a number of axes. -/
inductive LatticeSpelled (axes : Nat) : LatticeSpec → List Field → Prop where
  | lattice (spec : LatticeSpec) (hasAxes : spec.HasAxes axes) (packing : List Field)
      (spelled : PackingSpelled spec.packing packing) :
      LatticeSpelled axes spec (latticeFields spec ++ packing)

/-- The actions of each keyword and the fields that follow the group. -/
inductive Spelled (arity : ArityLookup) : Keyword → Action → List Field → Prop where
  | createGroup : Spelled arity .createGroup .createGroup []
  | addCommand (typeName : String) (placeholders : List Placeholder)
      (known : arity typeName = some placeholders.length) :
      Spelled arity .addCommand (.addCommand typeName placeholders)
        (Field.name typeName :: placeholders.map Field.name)
  | bindConstant (target : RawSlot) (value : Value) :
      Spelled arity .bindConstant (.bindConstant target value)
        (slotFields target ++ [Field.value value])
  | bindSequence (target : RawSlot) (initial increment : Value) :
      Spelled arity .bindSequence (.bindSequence target initial increment)
        (slotFields target ++ [Field.number initial, Field.number increment])
  | bindArgument (target source : RawSlot) :
      Spelled arity .bindArgument (.bindArgument target source)
        (slotFields target ++ slotFields source)
  | bindLattice2d (spec : LatticeSpec) (fields : List Field)
      (spelled : LatticeSpelled 2 spec fields) :
      Spelled arity .bindLattice2d (.bindLattice .two spec) fields
  | bindLattice3d (spec : LatticeSpec) (fields : List Field)
      (spelled : LatticeSpelled 3 spec fields) :
      Spelled arity .bindLattice3d (.bindLattice .three spec) fields
  | toggleCommand (command : Int64) :
      Spelled arity .toggleCommand (.toggleCommand command) [Field.integer command]
  | toggleAll : Spelled arity .toggleAll .toggleAll []
  | enableCommand (command : Int64) :
      Spelled arity .enableCommand (.switchCommand true command) [Field.integer command]
  | disableCommand (command : Int64) :
      Spelled arity .disableCommand (.switchCommand false command) [Field.integer command]
  | enableAll : Spelled arity .enableAll (.switchAll true) []
  | disableAll : Spelled arity .disableAll (.switchAll false) []
  | executeSequence (total period : Int64) :
      Spelled arity .executeSequence (.executeSequence total period)
        [Field.integer total, Field.integer period]

/-- Tokens that fit fields one by one. -/
def Fits (fields : List Field) (tokens : List Located) : Prop :=
  List.Forall₂ (fun field located => field located.token) fields tokens

/-- No fields fit no tokens, and nothing else. -/
theorem fits_nil_iff {tokens : List Located} : Fits [] tokens ↔ tokens = [] :=
  List.forall₂_nil_left_iff

/-- A single field fits a single token of its kind. -/
theorem fits_singleton_iff {field : Field} {tokens : List Located} :
    Fits [field] tokens ↔ ∃ located, field located.token ∧ tokens = [located] := by
  simp [Fits, List.forall₂_cons_left_iff]

/-- Fields behind one another fit tokens that can be cut between them. -/
theorem fits_append_iff {front back : List Field} {tokens : List Located} :
    Fits (front ++ back) tokens ↔
      ∃ own later, Fits front own ∧ Fits back later ∧ tokens = own ++ later := by
  induction front generalizing tokens with
  | nil => simp [Fits]
  | cons field front ih =>
    simp only [Fits, List.cons_append, List.forall₂_cons_left_iff] at ih ⊢
    constructor
    · rintro ⟨first, rest, fits, fitRest, rfl⟩
      obtain ⟨own, later, fitOwn, fitLater, rfl⟩ := ih.mp fitRest
      exact ⟨first :: own, later, ⟨first, own, fits, fitOwn, rfl⟩, fitLater, rfl⟩
    · rintro ⟨_, later, ⟨first, own, fits, fitOwn, rfl⟩, fitLater, rfl⟩
      exact ⟨first, own ++ later, fits, ih.mpr ⟨own, later, fitOwn, fitLater, rfl⟩, rfl⟩

/-! Readers of fields, and what they read. -/

/-- The position at which other tokens are left before those of a stream. -/
def TokenStream.putBack (own : List Located) (stream : TokenStream) : TokenStream :=
  { stream with left := own ++ stream.left }

/-- A reader takes off the front of a stream what fits the grammar. -/
def Reads {α : Type} (reader : FieldReader α) (grammar : α → List Field → Prop) : Prop :=
  ∀ before value after, reader.run before = (.ok value, after) ↔
    ∃ fields own, grammar value fields ∧ Fits fields own ∧ before = after.putBack own

/-- A reader leaves nothing of the tokens that fit the grammar, and something of all others. -/
def ReadsAll {α : Type} (reader : FieldReader α) (grammar : α → List Field → Prop) : Prop :=
  ∀ tokens stop value, reader.run ⟨tokens, stop⟩ = (.ok value, ⟨[], stop⟩) ↔
    ∃ fields, grammar value fields ∧ Fits fields tokens

/-- Each value is read from fields of its own. -/
def Exactly {α : Type} (fields : α → List Field) : α → List Field → Prop :=
  fun value found => found = fields value

/-- The fields of one value and then those of another. -/
def Then {α β : Type} (grammar : α → List Field → Prop) (later : α → β → List Field → Prop) :
    β → List Field → Prop :=
  fun result fields => ∃ value front back,
    grammar value front ∧ later value result back ∧ fields = front ++ back

/-- A value of which nothing has to be read. -/
def Given {α : Type} (value : α) : α → List Field → Prop :=
  fun result fields => value = result ∧ fields = []

section Reads

variable {α β : Type} {reader : FieldReader α} {next : α → FieldReader β}
  {grammar : α → List Field → Prop} {later : α → β → List Field → Prop}

/-- Answering succeeds with the answer and leaves the tokens where they are. -/
theorem run_pure_eq_ok_iff {value result : α} {before after : TokenStream} :
    (pure value : FieldReader α).run before = (.ok result, after) ↔
      value = result ∧ before = after := by
  change (Except.ok value, before) = _ ↔ _
  simp

/-- Reading two things succeeds if the first is read and the second behind it. -/
theorem run_bind_eq_ok_iff {before after : TokenStream} {result : β} :
    (reader >>= next).run before = (.ok result, after) ↔
      ∃ value middle,
        reader.run before = (.ok value, middle) ∧ (next value).run middle = (.ok result, after) := by
  rw [FieldReader.run_bind]
  split
  case h_1 value middle isRead => simp [isRead]
  case h_2 error middle failed => simp [failed]

/-- Failing never succeeds. -/
theorem not_run_fail_eq_ok {problem : Problem} {span : Span} {before after : TokenStream}
    {result : α} : ¬ (FieldReader.fail problem span).run before = (.ok result, after) := nofun

/-- To read a grammar of one field is to take one token of that field. -/
theorem reads_single_iff {field : α → Field} :
    Reads reader (Exactly fun value => [field value]) ↔
      ∀ before value after, reader.run before = (.ok value, after) ↔
        ∃ located, field value located.token ∧ before = after.putBack [located] := by
  have same (before : TokenStream) (value : α) (after : TokenStream) :
      (∃ fields own, Exactly (fun value => [field value]) value fields ∧ Fits fields own ∧
          before = after.putBack own) ↔
        ∃ located, field value located.token ∧ before = after.putBack [located] := by
    constructor
    · rintro ⟨_, own, rfl, fits, rfl⟩
      obtain ⟨located, fitsOne, rfl⟩ := fits_singleton_iff.mp fits
      exact ⟨located, fitsOne, rfl⟩
    · rintro ⟨located, fits, rfl⟩
      exact ⟨_, [located], rfl, fits_singleton_iff.mpr ⟨located, fits, rfl⟩, rfl⟩
  simp only [Reads, same]

/-- A reader that decides on one token reads the field that asks for what it accepts. -/
theorem Reads.expect {γ : Type} {what : String} {accept : Token → Option γ}
    {next : γ × Span → FieldReader α} {field : α → Field}
    (decides : ∀ token span value (later after : TokenStream),
      (∃ literal, accept token = some literal ∧
        (next (literal, span)).run later = (.ok value, after)) ↔
        field value token ∧ later = after) :
    Reads (FieldReader.expect what accept >>= next) (Exactly fun value => [field value]) := by
  refine reads_single_iff.mpr fun ⟨left, stop⟩ value ⟨rest, stopAfter⟩ => ?_
  rw [FieldReader.run_bind]
  cases left with
  | nil => simp [FieldReader.run_expect_nil, TokenStream.putBack]
  | cons first later =>
    have decidesThis := decides first.token first.span value ⟨later, stop⟩ ⟨rest, stopAfter⟩
    rw [FieldReader.run_expect_cons]
    cases accepted : accept first.token with
    | none =>
      simp only [accepted, reduceCtorEq, false_and, exists_false, false_iff] at decidesThis
      simpa [TokenStream.putBack, and_assoc, eq_comm] using decidesThis
    | some literal =>
      simpa [accepted, TokenStream.putBack, and_assoc, and_comm, eq_comm] using decidesThis

/-- Answering reads the grammar without fields. -/
theorem Reads.pure (value : α) : Reads (Pure.pure value) (Given value) := by
  intro before result after
  rw [run_pure_eq_ok_iff]
  constructor
  · rintro ⟨rfl, rfl⟩
    exact ⟨[], [], ⟨rfl, rfl⟩, .nil, rfl⟩
  · rintro ⟨_, own, ⟨rfl, rfl⟩, fits, rfl⟩
    obtain rfl := fits_nil_iff.mp fits
    exact ⟨rfl, rfl⟩

/-- Readers behind one another read their grammars behind one another. -/
theorem Reads.bind (reads : Reads reader grammar) (readsNext : ∀ value, Reads (next value) (later value)) :
    Reads (reader >>= next) (Then grammar later) := by
  intro before result after
  rw [run_bind_eq_ok_iff]
  constructor
  · rintro ⟨value, middle, isRead, isNext⟩
    obtain ⟨front, own, inGrammar, fits, rfl⟩ := (reads _ _ _).mp isRead
    obtain ⟨back, others, inLater, fitsLater, rfl⟩ := (readsNext _ _ _ _).mp isNext
    exact ⟨front ++ back, own ++ others, ⟨value, front, back, inGrammar, inLater, rfl⟩,
      fits_append_iff.mpr ⟨own, others, fits, fitsLater, rfl⟩,
      by simp only [TokenStream.putBack, List.append_assoc]⟩
  · rintro ⟨_, own, ⟨value, front, back, inGrammar, inLater, rfl⟩, fits, rfl⟩
    obtain ⟨first, others, fitsFirst, fitsLater, rfl⟩ := fits_append_iff.mp fits
    exact ⟨value, after.putBack others,
      (reads _ _ _).mpr ⟨front, first, inGrammar, fitsFirst,
        by simp only [TokenStream.putBack, List.append_assoc]⟩,
      (readsNext _ _ _ _).mpr ⟨back, others, inLater, fitsLater, rfl⟩⟩

/-- A grammar may be told in any equivalent way. -/
theorem Reads.of_iff {other : α → List Field → Prop} (reads : Reads reader grammar)
    (same : ∀ value fields, grammar value fields ↔ other value fields) : Reads reader other := by
  intro before value after
  simp only [reads before value after, same]

/-- A grammar that takes all tokens may be told in any equivalent way. -/
theorem ReadsAll.of_iff {other : α → List Field → Prop} (reads : ReadsAll reader grammar)
    (same : ∀ value fields, grammar value fields ↔ other value fields) : ReadsAll reader other := by
  intro tokens stop value
  simp only [reads tokens stop value, same]

/-- What is read in front of any tokens is also read in front of none. -/
theorem Reads.all (reads : Reads reader grammar) : ReadsAll reader grammar := by
  intro tokens stop value
  simp [reads _ value _, TokenStream.putBack]

/-- A reader of all tokens behind another one reads all tokens with it. -/
theorem Reads.bindAll (reads : Reads reader grammar)
    (readsNext : ∀ value, ReadsAll (next value) (later value)) :
    ReadsAll (reader >>= next) (Then grammar later) := by
  intro tokens stop result
  rw [run_bind_eq_ok_iff]
  constructor
  · rintro ⟨value, ⟨rest, _⟩, isRead, isNext⟩
    obtain ⟨front, own, inGrammar, fits, isBefore⟩ := (reads _ _ _).mp isRead
    cases isBefore
    obtain ⟨back, inLater, fitsLater⟩ := (readsNext _ _ _ _).mp isNext
    exact ⟨front ++ back, ⟨value, front, back, inGrammar, inLater, rfl⟩,
      fits_append_iff.mpr ⟨own, rest, fits, fitsLater, rfl⟩⟩
  · rintro ⟨_, ⟨value, front, back, inGrammar, inLater, rfl⟩, fits⟩
    obtain ⟨first, others, fitsFirst, fitsLater, rfl⟩ := fits_append_iff.mp fits
    exact ⟨value, ⟨others, stop⟩, (reads _ _ _).mpr ⟨front, first, inGrammar, fitsFirst, rfl⟩,
      (readsNext _ _ _ _).mpr ⟨back, inLater, fitsLater⟩⟩

/-- What is made of the value when nothing more is read. -/
theorem ReadsAll.map (reads : ReadsAll reader grammar) (make : α → β) :
    ReadsAll (reader >>= fun value => pure (make value))
      (fun result fields => ∃ value, grammar value fields ∧ make value = result) := by
  intro tokens stop result
  simp only [run_bind_eq_ok_iff, run_pure_eq_ok_iff]
  constructor
  · rintro ⟨value, _, isRead, rfl, rfl⟩
    obtain ⟨fields, inGrammar, fits⟩ := (reads _ _ _).mp isRead
    exact ⟨fields, ⟨value, inGrammar, rfl⟩, fits⟩
  · rintro ⟨fields, ⟨value, inGrammar, rfl⟩, fits⟩
    exact ⟨value, ⟨[], stop⟩, (reads _ _ _).mpr ⟨fields, inGrammar, fits⟩, rfl, rfl⟩

/-- A repeated reader reads its grammar as often. -/
theorem Reads.times {fields : α → List Field} (reads : Reads reader (Exactly fields)) (count : Nat) :
    Reads (FieldReader.times reader count)
      (fun values found => values.length = count ∧ found = values.flatMap fields) := by
  induction count with
  | zero =>
    refine (Reads.pure []).of_iff fun values found => ?_
    simp +contextual [Given]
  | succ count ih =>
    refine (reads.bind fun value => ih.bind fun values => .pure (value :: values)).of_iff
      fun values found => ?_
    constructor
    · rintro ⟨value, _, _, rfl, ⟨rest, _, _, ⟨length, rfl⟩, ⟨rfl, rfl⟩, rfl⟩, rfl⟩
      simp [length]
    · rintro ⟨length, rfl⟩
      obtain ⟨value, rest, rfl⟩ := List.exists_cons_of_length_eq_add_one length
      exact ⟨value, _, _, rfl, ⟨rest, _, [], ⟨Nat.succ.inj length, rfl⟩, ⟨rfl, rfl⟩, rfl⟩,
        by simp⟩

/-- A repeated reader of one field reads that many fields. -/
theorem Reads.timesSingle {field : α → Field} (reads : Reads reader (Exactly fun value => [field value]))
    (count : Nat) :
    Reads (FieldReader.times reader count)
      (fun values found => values.length = count ∧ found = values.map field) := by
  simpa only [List.map_eq_flatMap] using reads.times count

end Reads

section Fields

/-- A time is read where a time is written. -/
theorem reads_readTime : Reads readTime (Exactly fun time => [Field.time time]) := by
  refine .expect fun token span time later rest => ?_
  cases token with
  | integer literal =>
    cases denotes : literalTime? literal <;>
      simp [Field.time, ← literalTime_eq_some_iff, denotes, not_run_fail_eq_ok, run_pure_eq_ok_iff]
  | _ => simp [Field.time]

/-- The name of a group is read where a name is written. -/
theorem reads_readGroup : Reads readGroup (Exactly fun name => [Field.name name]) := by
  refine .expect fun token span name later rest => ?_
  cases token <;> simp [Field.name, run_pure_eq_ok_iff]

/-- The name of a placeholder is read where a name is written. -/
theorem reads_readPlaceholder : Reads readPlaceholder (Exactly fun name => [Field.name name]) := by
  refine .expect fun token span name later rest => ?_
  cases token <;> simp [Field.name, run_pure_eq_ok_iff]

/-- The literal of an integer is accepted if it is the decimal text of one in range. -/
theorem integerOf_eq_ok_iff {literal : String} {span : Span} {before after : TokenStream}
    {number : Int64} :
    (integerOf literal span).run before = (.ok number, after) ↔
      IntegerText literal.toList number.toInt ∧ before = after := by
  rw [integerOf, ← literalInt64_eq_some_iff]
  cases denotes : literalInt64? literal <;> simp [not_run_fail_eq_ok, run_pure_eq_ok_iff]

/-- The literal of a real is accepted if it is a text of that real. -/
theorem realOf_eq_ok_iff {literal : String} {span : Span} {before after : TokenStream}
    {number : Float} :
    (realOf literal span).run before = (.ok number, after) ↔
      RealText literal.toList number ∧ before = after := by
  rw [realOf, ← literalReal_eq_some_iff]
  cases denotes : literalReal? literal <;> simp [not_run_fail_eq_ok, run_pure_eq_ok_iff]

/-- An integer is read where one in range is written. -/
theorem reads_readInteger (what : String) :
    Reads (readInteger what) (Exactly fun number => [Field.integer number]) := by
  refine .expect fun token span number later rest => ?_
  cases token <;> simp [Field.integer, integerOf_eq_ok_iff]

/-- A number is read where one of its kind is written. -/
theorem reads_readNumber (what : String) :
    Reads (readNumber what) (Exactly fun value => [Field.number value]) := by
  refine .expect fun token span value later rest => ?_
  cases token with
  | integer literal =>
    cases value <;>
      simp [Field.number, Field.integer, Field.properReal, run_bind_eq_ok_iff, integerOf_eq_ok_iff,
        run_pure_eq_ok_iff]
  | real literal =>
    cases value <;>
      simp [Field.number, Field.integer, Field.properReal, run_bind_eq_ok_iff, realOf_eq_ok_iff,
        run_pure_eq_ok_iff]
  | _ => cases value <;> simp [Field.number, Field.integer, Field.properReal]

/-- A real is read where an integer or a real is written. -/
theorem reads_readReal (what : String) :
    Reads (readReal what) (Exactly fun number => [Field.real number]) := by
  refine .expect fun token span number later rest => ?_
  cases token <;> simp [Field.real, realOf_eq_ok_iff]

/-- The fields of values are those of numbers, and texts. -/
theorem value_field_iff {value : Value} {token : Token} :
    Field.value value token ↔
      Field.number value token ∨ ∃ content, value = .text content ∧ Field.text content token := by
  cases value <;> simp [Field.value, Field.number]

/-- A text in quotes stands for what its escapes come to. -/
theorem text_field_iff {content : String} {token : Token} :
    Field.text content token ↔
      ∃ raw, token = .text raw ∧ String.ofList (unescape raw.toList) = content := by
  simp only [Field.text, ← unescape_eq_iff, String.ext_iff, String.toList_ofList]

/-- A value is read where one of its kind is written. -/
theorem reads_readValue : Reads readValue (Exactly fun value => [Field.value value]) := by
  have readsNumber := reads_single_iff.mp (reads_readNumber "value")
  refine reads_single_iff.mpr fun before value after => ?_
  by_cases isText : ∃ raw, before.peek? = some (.text raw)
  case pos =>
    obtain ⟨left, stop⟩ := before
    obtain ⟨raw, isText⟩ := isText
    obtain ⟨span, rest, rfl⟩ := TokenStream.left_of_peek isText
    obtain ⟨others, stopAfter⟩ := after
    rw [run_readValue_text]
    cases value <;>
      simp [Field.value, Field.integer, Field.properReal, text_field_iff, TokenStream.putBack]
  case neg =>
    rw [run_readValue_of_not_text fun raw ahead => isText ⟨raw, ahead⟩, readsNumber]
    constructor
    · rintro ⟨located, fits, rfl⟩
      exact ⟨located, value_field_iff.mpr (.inl fits), rfl⟩
    · rintro ⟨located, fits, rfl⟩
      rcases value_field_iff.mp fits with isNumber | ⟨_, _, raw, isRaw, _⟩
      · exact ⟨located, isNumber, rfl⟩
      · exact absurd ⟨raw, congrArg some isRaw⟩ isText

/-- A slot is read where an index and a name are written. -/
theorem reads_readSlot (what : String) : Reads (readSlot what) (Exactly slotFields) := by
  refine ((reads_readInteger what).bind fun command =>
    reads_readPlaceholder.bind fun placeholder =>
      .pure (RawSlot.mk command placeholder)).of_iff fun slot fields => ?_
  constructor
  · rintro ⟨command, _, _, rfl, ⟨placeholder, _, _, rfl, ⟨rfl, rfl⟩, rfl⟩, rfl⟩
    rfl
  · rintro rfl
    exact ⟨_, _, _, rfl, ⟨_, _, _, rfl, ⟨rfl, rfl⟩, rfl⟩, rfl⟩

/-- The name of a packing names that packing only. -/
theorem packing_ofName_eq_some_iff {name : String} {packing : Packing} :
    Packing.ofName? name = some packing ↔ name = packing.name := by
  constructor
  · intro isFound
    have same := List.find?_some isFound
    exact (of_decide_eq_true same).symm
  · rintro rfl
    cases packing <;> decide

/-- A packing is spelled by its name, and the rectangular one by nothing as well. -/
theorem packingSpelled_iff {packing : Packing} {fields : List Field} :
    PackingSpelled packing fields ↔
      fields = [Field.name packing.name] ∨ packing = .rectangular ∧ fields = [] := by
  constructor
  · rintro (_ | _ | _)
    · exact .inl rfl
    · exact .inl rfl
    · exact .inr ⟨rfl, rfl⟩
  · rintro (rfl | ⟨rfl, rfl⟩)
    · cases packing with
      | rectangular => exact .rectangular
      | triangular => exact .triangular
    · exact .unnamed

/-- The tokens that spell a packing are its name, or none for the rectangular one. -/
theorem exists_packingSpelled_fits_iff {packing : Packing} {tokens : List Located} :
    (∃ fields, PackingSpelled packing fields ∧ Fits fields tokens) ↔
      (∃ span, tokens = [⟨.name packing.name, span⟩]) ∨ packing = .rectangular ∧ tokens = [] := by
  simp only [packingSpelled_iff]
  constructor
  · rintro ⟨_, rfl | ⟨rfl, rfl⟩, fits⟩
    · obtain ⟨⟨_, span⟩, rfl, rfl⟩ := fits_singleton_iff.mp fits
      exact .inl ⟨span, rfl⟩
    · exact .inr ⟨rfl, fits_nil_iff.mp fits⟩
  · rintro (⟨span, rfl⟩ | ⟨rfl, rfl⟩)
    · exact ⟨_, .inl rfl, fits_singleton_iff.mpr ⟨⟨.name packing.name, span⟩, rfl, rfl⟩⟩
    · exact ⟨_, .inr ⟨rfl, rfl⟩, fits_nil_iff.mpr rfl⟩

/-- The packing is read if nothing is left behind it. -/
theorem readsAll_readPacking : ReadsAll readPacking PackingSpelled := by
  intro tokens stop packing
  rw [exists_packingSpelled_fits_iff]
  by_cases isName : ∃ name, (TokenStream.mk tokens stop).peek? = some (.name name)
  case pos =>
    obtain ⟨name, isName⟩ := isName
    obtain ⟨span, rest, rfl⟩ := TokenStream.left_of_peek isName
    rw [run_readPacking_name]
    cases found : Packing.ofName? name with
    | none =>
      have unknown : name ≠ packing.name := by
        rintro rfl
        rw [packing_ofName_eq_some_iff.mpr rfl] at found
        cases found
      simp [unknown]
    | some known =>
      obtain rfl := packing_ofName_eq_some_iff.mp found
      have same : known.name = packing.name ↔ known = packing := by
        cases known <;> cases packing <;> decide
      simp [same]
  case neg =>
    rw [run_readPacking_of_not_name fun name ahead => isName ⟨name, ahead⟩]
    have notNamed : ¬ ∃ span, tokens = [⟨.name packing.name, span⟩] := by
      rintro ⟨span, rfl⟩
      exact isName ⟨_, rfl⟩
    simp [notNamed, eq_comm]

/-- A lattice is read where as many of everything as it has axes are written. -/
theorem readsAll_readLattice (rank : Rank) :
    ReadsAll (readLattice rank) (LatticeSpelled rank.axes) := by
  refine (((reads_readSlot _).times _).bindAll fun targets =>
    ((reads_readInteger _).timesSingle _).bindAll fun dims =>
    ((reads_readReal _).timesSingle _).bindAll fun origin =>
    ((reads_readReal _).timesSingle _).bindAll fun lengths =>
    readsAll_readPacking.map fun packing =>
      LatticeSpec.mk targets dims origin lengths packing).of_iff fun spec fields => ?_
  constructor
  · rintro ⟨targets, _, _, ⟨hasTargets, rfl⟩, ⟨dims, _, _, ⟨hasDims, rfl⟩, ⟨origin, _, _,
      ⟨hasOrigin, rfl⟩, ⟨lengths, _, back, ⟨hasLengths, rfl⟩, ⟨packing, spelled, rfl⟩, rfl⟩,
      rfl⟩, rfl⟩, rfl⟩
    simp only [← List.append_assoc]
    exact .lattice ⟨targets, dims, origin, lengths, packing⟩
      ⟨hasTargets, hasDims, hasOrigin, hasLengths⟩ back spelled
  · rintro ⟨hasAxes, back, spelled⟩
    exact ⟨spec.targets, _, _, ⟨hasAxes.targets, rfl⟩, ⟨spec.dims, _, _, ⟨hasAxes.dims, rfl⟩,
      ⟨spec.origin, _, _, ⟨hasAxes.origin, rfl⟩, ⟨spec.lengths, _, back, ⟨hasAxes.lengths, rfl⟩,
      ⟨spec.packing, spelled, rfl⟩, rfl⟩, rfl⟩, rfl⟩,
      by simp only [latticeFields, List.append_assoc]⟩

/-- Reading a name and something else succeeds if a name is ahead and the rest is read behind it. -/
theorem readName_bind_eq_ok_iff {α : Type} {what : String} {next : String × Span → FieldReader α}
    {tokens : List Located} {stop : Stop} {value : α} {after : TokenStream} :
    (readName what >>= next).run ⟨tokens, stop⟩ = (.ok value, after) ↔
      ∃ name span rest, tokens = ⟨.name name, span⟩ :: rest ∧
        (next (name, span)).run ⟨rest, stop⟩ = (.ok value, after) := by
  rw [FieldReader.run_bind, readName]
  cases tokens with
  | nil => simp [FieldReader.run_expect_nil]
  | cons located later =>
    obtain ⟨token, span⟩ := located
    rw [FieldReader.run_expect_cons]
    cases token <;> simp

/-- A command is read where its type is written and as many placeholders as the type has. -/
theorem readsAll_addCommand (arity : ArityLookup) :
    ReadsAll (readAction arity .addCommand) (Spelled arity .addCommand) := by
  intro tokens stop action
  rw [readAction, readName_bind_eq_ok_iff]
  have readsRest (typeName : String) (count : Nat) :=
    ((reads_readPlaceholder.timesSingle count).all.map (Action.addCommand typeName))
  constructor
  · rintro ⟨typeName, span, rest, rfl, isRead⟩
    cases known : arity typeName with
    | none =>
      simp only [known] at isRead
      cases isRead
    | some count =>
      simp only [known] at isRead
      obtain ⟨_, ⟨placeholders, ⟨rfl, rfl⟩, rfl⟩, fits⟩ :=
        (readsRest typeName count _ _ _).mp isRead
      exact ⟨_, .addCommand typeName placeholders known, .cons rfl fits⟩
  · rintro ⟨_, spelled, fits⟩
    cases spelled with
    | addCommand typeName placeholders known =>
      obtain ⟨⟨_, span⟩, rest, rfl, fitsRest, rfl⟩ := List.forall₂_cons_left_iff.mp fits
      refine ⟨typeName, span, rest, rfl, ?_⟩
      simp only [known]
      exact (readsRest typeName _ _ _ _).mpr ⟨_, ⟨placeholders, ⟨rfl, rfl⟩, rfl⟩, fitsRest⟩

/-- A keyword with one action and no fields behind the group. -/
theorem readsAll_bare {arity : ArityLookup} {keyword : Keyword} {bareAction : Action}
    (only : ∀ action fields,
      Spelled arity keyword action fields ↔ bareAction = action ∧ fields = []) :
    ReadsAll (pure bareAction) (Spelled arity keyword) :=
  (Reads.pure bareAction).all.of_iff fun action fields => (only action fields).symm

/-- A keyword behind whose group only the index of a command stands. -/
theorem readsAll_index {arity : ArityLookup} {keyword : Keyword} {make : Int64 → Action}
    (only : ∀ action fields, Spelled arity keyword action fields ↔
      ∃ command, fields = [Field.integer command] ∧ make command = action) :
    ReadsAll (readInteger "command index" >>= fun command => pure (make command))
      (Spelled arity keyword) :=
  ((reads_readInteger _).all.map make).of_iff fun action fields => (only action fields).symm

/-- A constant is read where a slot and a value are written. -/
theorem readsAll_bindConstant (arity : ArityLookup) :
    ReadsAll (readAction arity .bindConstant) (Spelled arity .bindConstant) := by
  refine ((reads_readSlot _).bind fun target => reads_readValue.bind fun value =>
    .pure (Action.bindConstant target value)).all.of_iff fun action fields => ⟨?_, ?_⟩
  · rintro ⟨target, _, _, rfl, ⟨value, _, _, rfl, ⟨rfl, rfl⟩, rfl⟩, rfl⟩
    exact .bindConstant target value
  · rintro ⟨⟩
    exact ⟨_, _, _, rfl, ⟨_, _, _, rfl, ⟨rfl, rfl⟩, rfl⟩, rfl⟩

/-- A progression is read where a slot and two numbers are written. -/
theorem readsAll_bindSequence (arity : ArityLookup) :
    ReadsAll (readAction arity .bindSequence) (Spelled arity .bindSequence) := by
  refine ((reads_readSlot _).bind fun target => (reads_readNumber _).bind fun initial =>
    (reads_readNumber _).bind fun increment =>
      .pure (Action.bindSequence target initial increment)).all.of_iff fun action fields => ⟨?_, ?_⟩
  · rintro ⟨target, _, _, rfl, ⟨initial, _, _, rfl, ⟨increment, _, _, rfl, ⟨rfl, rfl⟩, rfl⟩,
      rfl⟩, rfl⟩
    exact .bindSequence target initial increment
  · rintro ⟨⟩
    exact ⟨_, _, _, rfl, ⟨_, _, _, rfl, ⟨_, _, _, rfl, ⟨rfl, rfl⟩, rfl⟩, rfl⟩, rfl⟩

/-- A reference is read where two slots are written. -/
theorem readsAll_bindArgument (arity : ArityLookup) :
    ReadsAll (readAction arity .bindArgument) (Spelled arity .bindArgument) := by
  refine ((reads_readSlot _).bind fun target => (reads_readSlot _).bind fun source =>
    .pure (Action.bindArgument target source)).all.of_iff fun action fields => ⟨?_, ?_⟩
  · rintro ⟨target, _, _, rfl, ⟨source, _, _, rfl, ⟨rfl, rfl⟩, rfl⟩, rfl⟩
    rw [List.append_nil]
    exact .bindArgument target source
  · rintro ⟨⟩
    exact ⟨_, _, _, rfl, ⟨_, _, _, rfl, ⟨rfl, rfl⟩, rfl⟩, by rw [List.append_nil]⟩

/-- A sequence is read where its repetitions and its period are written. -/
theorem readsAll_executeSequence (arity : ArityLookup) :
    ReadsAll (readAction arity .executeSequence) (Spelled arity .executeSequence) := by
  refine ((reads_readInteger _).bind fun total => (reads_readInteger _).bind fun period =>
    .pure (Action.executeSequence total period)).all.of_iff fun action fields => ⟨?_, ?_⟩
  · rintro ⟨total, _, _, rfl, ⟨period, _, _, rfl, ⟨rfl, rfl⟩, rfl⟩, rfl⟩
    exact .executeSequence total period
  · rintro ⟨⟩
    exact ⟨_, _, _, rfl, ⟨_, _, _, rfl, ⟨rfl, rfl⟩, rfl⟩, rfl⟩

/-- The fields of an action are read as the production of its keyword says. -/
theorem readsAll_readAction (arity : ArityLookup) (keyword : Keyword) :
    ReadsAll (readAction arity keyword) (Spelled arity keyword) := by
  cases keyword with
  | addCommand => exact readsAll_addCommand arity
  | bindConstant => exact readsAll_bindConstant arity
  | bindSequence => exact readsAll_bindSequence arity
  | bindArgument => exact readsAll_bindArgument arity
  | executeSequence => exact readsAll_executeSequence arity
  | bindLattice2d =>
    refine ((readsAll_readLattice .two).map (Action.bindLattice .two)).of_iff
      fun action fields => ⟨?_, ?_⟩
    · rintro ⟨spec, spelled, rfl⟩
      exact .bindLattice2d spec fields spelled
    · rintro ⟨⟩
      exact ⟨_, ‹_›, rfl⟩
  | bindLattice3d =>
    refine ((readsAll_readLattice .three).map (Action.bindLattice .three)).of_iff
      fun action fields => ⟨?_, ?_⟩
    · rintro ⟨spec, spelled, rfl⟩
      exact .bindLattice3d spec fields spelled
    · rintro ⟨⟩
      exact ⟨_, ‹_›, rfl⟩
  -- The keywords with one field, and then those with none: their production is the only one.
  | toggleCommand | enableCommand | disableCommand =>
    refine readsAll_index fun action fields => ⟨?_, ?_⟩
    · rintro ⟨⟩
      exact ⟨_, rfl, rfl⟩
    · rintro ⟨command, rfl, rfl⟩
      constructor
  | createGroup | toggleAll | enableAll | disableAll =>
    refine readsAll_bare fun action fields => ⟨?_, ?_⟩
    · rintro ⟨⟩
      exact ⟨rfl, rfl⟩
    · rintro ⟨rfl, rfl⟩
      constructor

/-- The fields of a directive: its time, its group and the fields of its action. -/
def DirectiveSpelled (arity : ArityLookup) (keyword : Keyword) (directive : Directive)
    (fields : List Field) : Prop :=
  ∃ actionFields, Spelled arity keyword directive.action actionFields ∧
    fields = Field.time directive.time :: Field.name directive.group :: actionFields

/-- The fields of a directive are read where its grammar spells them, and no token is left. -/
theorem readsAll_readFields (arity : ArityLookup) (keyword : Keyword) :
    ReadsAll (readFields arity keyword) (DirectiveSpelled arity keyword) := by
  refine (reads_readTime.bindAll fun time => reads_readGroup.bindAll fun group =>
    (readsAll_readAction arity keyword).map (Directive.mk time group)).of_iff
      fun directive fields => ⟨?_, ?_⟩
  · rintro ⟨time, _, _, rfl, ⟨group, _, _, rfl, ⟨action, spelled, rfl⟩, rfl⟩, rfl⟩
    exact ⟨_, spelled, rfl⟩
  · rintro ⟨actionFields, spelled, rfl⟩
    exact ⟨_, _, _, rfl, ⟨_, _, _, rfl, ⟨_, spelled, rfl⟩, rfl⟩, rfl⟩

/-- The tokens behind a keyword are read as a directive, and none is left, exactly if they fit the
fields of that directive. -/
theorem readFields_eq_ok_iff (arity : ArityLookup) (keyword : Keyword) (tokens : List Located)
    (stop : Stop) (directive : Directive) :
    (readFields arity keyword).run ⟨tokens, stop⟩ = (.ok directive, ⟨[], stop⟩) ↔
      ∃ fields, DirectiveSpelled arity keyword directive fields ∧ Fits fields tokens :=
  readsAll_readFields arity keyword tokens stop directive

end Fields

end Script

end TimedCommands
