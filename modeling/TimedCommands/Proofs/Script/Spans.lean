import TimedCommands.Proofs.Script.Segments

/-!
# Reading and places

A reader looks at tokens and hands on their places; it compares no place with another and makes
none up. So for tokens that are the same one by one, at places that are related in whatever way,
reading yields the same values, or the same problem at places related in that way (`Parallel`), and
so does a whole script (`alike_outcomes`).

Told of all places, this says that places do not matter to what is read. Told of the places that
have a property, each related to itself, it says where errors are reported.
-/

namespace TimedCommands.Script

/-- One token at two related places. -/
structure Alike (places : Span → Span → Prop) (one other : Located) : Prop where
  token : one.token = other.token
  place : places one.span other.span

/-- One token, or the end of the source, behind tokens at two related places. -/
structure AlikeStops (places : Span → Span → Prop) (one other : Stop) : Prop where
  token : one.token = other.token
  place : places one.span other.span

/-- Streams of the same tokens, one by one at two related places. -/
structure AlikeStreams (places : Span → Span → Prop) (one other : TokenStream) : Prop where
  left : List.Forall₂ (Alike places) one.left other.left
  stop : AlikeStops places one.stop other.stop

/-- The same token is seen ahead in streams that are alike. -/
theorem AlikeStreams.peek {places : Span → Span → Prop} {one other : TokenStream}
    (alike : AlikeStreams places one other) : one.peek? = other.peek? := by
  obtain ⟨left, stop⟩ := one
  obtain ⟨otherLeft, otherStop⟩ := other
  cases alike.left with
  | nil => rfl
  | cons first _ => exact congrArg some first.token

/-- Related values or one problem at two related places, with the streams left alike. -/
inductive AlikeResults {α : Type} (places : Span → Span → Prop) (values : α → α → Prop) :
    Except ReadError α × TokenStream → Except ReadError α × TokenStream → Prop where
  | ok {value otherValue : α} {after otherAfter : TokenStream} (related : values value otherValue)
      (alike : AlikeStreams places after otherAfter) :
      AlikeResults places values (.ok value, after) (.ok otherValue, otherAfter)
  | error (problem : Problem) {span otherSpan : Span} (place : places span otherSpan)
      {after otherAfter : TokenStream} (alike : AlikeStreams places after otherAfter) :
      AlikeResults places values (.error ⟨problem, span⟩, after)
        (.error ⟨problem, otherSpan⟩, otherAfter)

/-- Readers that make alike results of alike streams. -/
def Parallel {α : Type} (places : Span → Span → Prop) (values : α → α → Prop)
    (reader other : FieldReader α) : Prop :=
  ∀ stream otherStream, AlikeStreams places stream otherStream →
    AlikeResults places values (reader.run stream) (other.run otherStream)

/-- One value that was read at two related places. -/
def Placed {α : Type} (places : Span → Span → Prop) (one other : α × Span) : Prop :=
  one.1 = other.1 ∧ places one.2 other.2

section Parallel

variable {α β : Type} {places : Span → Span → Prop} {values : α → α → Prop}

/-- Related answers are given in parallel. -/
theorem Parallel.pure {value otherValue : α} (related : values value otherValue) :
    Parallel places values (Pure.pure value) (Pure.pure otherValue) :=
  fun _ _ alike => .ok related alike

/-- Errors of one kind at related places are given in parallel. -/
theorem Parallel.fail (problem : Problem) {span otherSpan : Span} (place : places span otherSpan) :
    Parallel places values (FieldReader.fail problem span) (FieldReader.fail problem otherSpan) :=
  fun _ _ alike => .error problem place alike

/-- Readers in parallel, each followed by another, are in parallel if those are for related
values. -/
theorem Parallel.bind {results : β → β → Prop} {reader other : FieldReader α}
    {next otherNext : α → FieldReader β} (first : Parallel places values reader other)
    (second : ∀ value otherValue, values value otherValue →
      Parallel places results (next value) (otherNext otherValue)) :
    Parallel places results (reader >>= next) (other >>= otherNext) := by
  intro stream otherStream alike
  have firstAlike := first stream otherStream alike
  rw [FieldReader.run_bind, FieldReader.run_bind]
  generalize reader.run stream = result, other.run otherStream = otherResult at firstAlike
  cases firstAlike with
  | ok related alikeRest => exact second _ _ related _ _ alikeRest
  | error problem place alikeRest => exact .error problem place alikeRest

/-- Two readers of the same value, behind two readers of another value that is the same. -/
theorem Parallel.bindEq {results : β → β → Prop} {reader other : FieldReader α}
    {next otherNext : α → FieldReader β} (first : Parallel places Eq reader other)
    (second : ∀ value, Parallel places results (next value) (otherNext value)) :
    Parallel places results (reader >>= next) (other >>= otherNext) :=
  first.bind fun value _ same => same ▸ second value

/-- Repeated readers are in parallel if a single one is. -/
theorem Parallel.times {reader other : FieldReader α} (once : Parallel places Eq reader other)
    (count : Nat) :
    Parallel places Eq (FieldReader.times reader count) (FieldReader.times other count) := by
  induction count with
  | zero => exact .pure rfl
  | succ count ih => exact once.bindEq fun value => ih.bindEq fun values => .pure rfl

/-- Streams that are alike meet what is expected in the same way and at related places. -/
theorem Parallel.expect (what : String) (accept : Token → Option α) :
    Parallel places (Placed places) (FieldReader.expect what accept)
      (FieldReader.expect what accept) := by
  rintro ⟨left, stop⟩ ⟨otherLeft, otherStop⟩ alike
  cases alike.left with
  | nil =>
    rw [FieldReader.run_expect_nil, FieldReader.run_expect_nil, ← alike.stop.token]
    exact .error _ alike.stop.place alike
  | cons first rest =>
    rw [FieldReader.run_expect_cons, FieldReader.run_expect_cons, ← first.token]
    split
    · exact .ok ⟨rfl, first.place⟩ ⟨rest, alike.stop⟩
    · exact .error _ first.place alike

/-- A time is read in parallel. -/
theorem parallel_readTime : Parallel places Eq readTime readTime := by
  refine (Parallel.expect _ _).bind ?_
  rintro ⟨literal, span⟩ ⟨_, otherSpan⟩ ⟨rfl, place⟩
  dsimp only
  cases literalTime? literal with
  | some time => exact .pure rfl
  | none => exact .fail _ place

/-- A name is read in parallel, its place with it. -/
theorem parallel_readName (what : String) :
    Parallel places (Placed places) (readName what) (readName what) :=
  .expect what _

/-- The name of a group is read in parallel. -/
theorem parallel_readGroup : Parallel places Eq readGroup readGroup :=
  (parallel_readName _).bind fun _ _ placed => .pure placed.1

/-- The name of a placeholder is read in parallel. -/
theorem parallel_readPlaceholder : Parallel places Eq readPlaceholder readPlaceholder :=
  (parallel_readName _).bind fun _ _ placed => .pure placed.1

/-- A literal is accepted as an integer or refused at its place, whatever the place. -/
theorem parallel_integerOf (literal : String) {span otherSpan : Span}
    (place : places span otherSpan) :
    Parallel places Eq (integerOf literal span) (integerOf literal otherSpan) := by
  rw [integerOf, integerOf]
  cases literalInt64? literal with
  | some number => exact .pure rfl
  | none => exact .fail _ place

/-- A literal is accepted as a real or refused at its place, whatever the place. -/
theorem parallel_realOf (literal : String) {span otherSpan : Span}
    (place : places span otherSpan) :
    Parallel places Eq (realOf literal span) (realOf literal otherSpan) := by
  rw [realOf, realOf]
  cases literalReal? literal with
  | some number => exact .pure rfl
  | none => exact .fail _ place

/-- An integer is read in parallel. -/
theorem parallel_readInteger (what : String) :
    Parallel places Eq (readInteger what) (readInteger what) := by
  refine (Parallel.expect what _).bind ?_
  rintro ⟨literal, span⟩ ⟨_, otherSpan⟩ ⟨rfl, place⟩
  exact parallel_integerOf literal place

/-- A number is read in parallel. -/
theorem parallel_readNumber (what : String) :
    Parallel places Eq (readNumber what) (readNumber what) := by
  refine (Parallel.expect what _).bind ?_
  rintro ⟨⟨isReal, literal⟩, span⟩ ⟨_, otherSpan⟩ ⟨rfl, place⟩
  cases isReal with
  | true => exact (parallel_realOf literal place).bindEq fun number => .pure rfl
  | false => exact (parallel_integerOf literal place).bindEq fun number => .pure rfl

/-- A real is read in parallel. -/
theorem parallel_readReal (what : String) : Parallel places Eq (readReal what) (readReal what) := by
  refine (Parallel.expect what _).bind ?_
  rintro ⟨literal, span⟩ ⟨_, otherSpan⟩ ⟨rfl, place⟩
  exact parallel_realOf literal place

/-- A slot is read in parallel. -/
theorem parallel_readSlot (what : String) : Parallel places Eq (readSlot what) (readSlot what) :=
  (parallel_readInteger what).bindEq fun _ => parallel_readPlaceholder.bindEq fun _ => .pure rfl

/-- A value is read in parallel, whichever kind is ahead. -/
theorem parallel_readValue : Parallel places Eq readValue readValue := by
  intro stream otherStream alike
  by_cases isText : ∃ raw, stream.peek? = some (.text raw)
  case pos =>
    obtain ⟨raw, isText⟩ := isText
    obtain ⟨left, stop⟩ := stream
    obtain ⟨otherLeft, otherStop⟩ := otherStream
    obtain ⟨_, rest, rfl⟩ := TokenStream.left_of_peek isText
    obtain ⟨_, otherRest, rfl⟩ := TokenStream.left_of_peek (alike.peek.symm.trans isText)
    rw [run_readValue_text, run_readValue_text]
    exact .ok rfl ⟨(List.forall₂_cons.mp alike.left).2, alike.stop⟩
  case neg =>
    have noText : ∀ raw, stream.peek? ≠ some (.text raw) := not_exists.mp isText
    rw [run_readValue_of_not_text noText, run_readValue_of_not_text (alike.peek ▸ noText)]
    exact parallel_readNumber "value" stream otherStream alike

/-- A packing is read in parallel, also where none is written. -/
theorem parallel_readPacking : Parallel places Eq readPacking readPacking := by
  intro stream otherStream alike
  by_cases isName : ∃ name, stream.peek? = some (.name name)
  case pos =>
    obtain ⟨name, isName⟩ := isName
    obtain ⟨left, stop⟩ := stream
    obtain ⟨otherLeft, otherStop⟩ := otherStream
    obtain ⟨_, rest, rfl⟩ := TokenStream.left_of_peek isName
    obtain ⟨_, otherRest, rfl⟩ := TokenStream.left_of_peek (alike.peek.symm.trans isName)
    obtain ⟨alikeFirst, alikeRest⟩ := List.forall₂_cons.mp alike.left
    rw [run_readPacking_name, run_readPacking_name]
    cases Packing.ofName? name with
    | some packing => exact .ok rfl ⟨alikeRest, alike.stop⟩
    | none => exact .error _ alikeFirst.place alike
  case neg =>
    have noName : ∀ name, stream.peek? ≠ some (.name name) := not_exists.mp isName
    rw [run_readPacking_of_not_name noName, run_readPacking_of_not_name (alike.peek ▸ noName)]
    exact .ok rfl alike

/-- The fields of a lattice are read in parallel. -/
theorem parallel_readLattice (rank : Rank) :
    Parallel places Eq (readLattice rank) (readLattice rank) :=
  ((parallel_readSlot _).times _).bindEq fun _ =>
  ((parallel_readInteger _).times _).bindEq fun _ =>
  ((parallel_readReal _).times _).bindEq fun _ =>
  ((parallel_readReal _).times _).bindEq fun _ =>
  parallel_readPacking.bindEq fun _ => .pure rfl

/-- What follows the group of a directive is read in parallel, for every keyword. -/
theorem parallel_readAction (arity : ArityLookup) (keyword : Keyword) :
    Parallel places Eq (readAction arity keyword) (readAction arity keyword) := by
  cases keyword with
  | addCommand =>
    refine (parallel_readName _).bind ?_
    rintro ⟨typeName, span⟩ ⟨_, otherSpan⟩ ⟨rfl, place⟩
    dsimp only
    cases arity typeName with
    | none => exact .fail _ place
    | some count => exact (parallel_readPlaceholder.times count).bindEq fun _ => .pure rfl
  | bindConstant =>
    exact (parallel_readSlot _).bindEq fun _ => parallel_readValue.bindEq fun _ => .pure rfl
  | bindSequence =>
    exact (parallel_readSlot _).bindEq fun _ =>
      (parallel_readNumber _).bindEq fun _ => (parallel_readNumber _).bindEq fun _ => .pure rfl
  | bindArgument =>
    exact (parallel_readSlot _).bindEq fun _ => (parallel_readSlot _).bindEq fun _ => .pure rfl
  | bindLattice2d => exact (parallel_readLattice .two).bindEq fun _ => .pure rfl
  | bindLattice3d => exact (parallel_readLattice .three).bindEq fun _ => .pure rfl
  | toggleCommand | enableCommand | disableCommand =>
    exact (parallel_readInteger _).bindEq fun _ => .pure rfl
  | executeSequence =>
    exact (parallel_readInteger _).bindEq fun _ =>
      (parallel_readInteger _).bindEq fun _ => .pure rfl
  | createGroup | toggleAll | enableAll | disableAll => exact .pure rfl

/-- The fields of a directive are read in parallel. -/
theorem parallel_readFields (arity : ArityLookup) (keyword : Keyword) :
    Parallel places Eq (readFields arity keyword) (readFields arity keyword) :=
  parallel_readTime.bindEq fun _ => parallel_readGroup.bindEq fun _ =>
    (parallel_readAction arity keyword).bindEq fun _ => .pure rfl

end Parallel

/-- The same directive, or one problem at two related places. -/
inductive AlikeOutcomes (places : Span → Span → Prop) :
    Except ReadError Directive → Except ReadError Directive → Prop where
  | ok (directive : Directive) : AlikeOutcomes places (.ok directive) (.ok directive)
  | error (problem : Problem) {span otherSpan : Span} (place : places span otherSpan) :
      AlikeOutcomes places (.error ⟨problem, span⟩) (.error ⟨problem, otherSpan⟩)

section Outcomes

variable {places : Span → Span → Prop} {tokens others : List Located}

/-- Segments that are alike give the same directive, or the same error at related places. -/
theorem alike_readSegment {stop otherStop : Stop} (stops : AlikeStops places stop otherStop)
    (arity : ArityLookup) (keyword : Keyword) (alike : List.Forall₂ (Alike places) tokens others) :
    AlikeOutcomes places (readSegment stop arity keyword tokens)
      (readSegment otherStop arity keyword others) := by
  have fields := parallel_readFields arity keyword ⟨tokens, stop⟩ ⟨others, otherStop⟩ ⟨alike, stops⟩
  rw [readSegment, readSegment]
  generalize (readFields arity keyword).run ⟨tokens, stop⟩ = result,
    (readFields arity keyword).run ⟨others, otherStop⟩ = otherResult at fields
  cases fields with
  | error problem place _ => exact .error problem place
  | @ok directive _ after otherAfter same alikeRest =>
    subst same
    obtain ⟨left, _⟩ := after
    obtain ⟨otherLeft, _⟩ := otherAfter
    cases alikeRest.left with
    | nil => exact .ok _
    | cons found _ =>
      simp only [found.token]
      exact .error _ found.place

/-- Tokens that are alike begin, or end, at related places. -/
theorem alike_stopAt {sourceLength otherLength : Nat}
    (ends : places ⟨sourceLength, sourceLength⟩ ⟨otherLength, otherLength⟩)
    (alike : List.Forall₂ (Alike places) tokens others) :
    AlikeStops places (stopAt sourceLength tokens) (stopAt otherLength others) := by
  cases alike with
  | nil => exact ⟨rfl, ends⟩
  | cons first _ => exact ⟨congrArg some first.token, first.place⟩

/-- Tokens that are alike are cut alike at the next keyword. -/
theorem alike_segment (alike : List.Forall₂ (Alike places) tokens others) :
    List.Forall₂ (Alike places) (ownTokens tokens) (ownTokens others) ∧
      List.Forall₂ (Alike places) (fromKeyword tokens) (fromKeyword others) := by
  induction alike with
  | nil => exact ⟨.nil, .nil⟩
  | @cons first other rest otherRest alikeFirst alikeRest ih =>
    rw [ownTokens, ownTokens, fromKeyword, fromKeyword, List.takeWhile_cons, List.takeWhile_cons,
      List.dropWhile_cons, List.dropWhile_cons, alikeFirst.token]
    split
    · exact ⟨.cons alikeFirst ih.1, ih.2⟩
    · exact ⟨.nil, .cons alikeFirst alikeRest⟩

/-- A script yields the same directives and the same problems in the same order, wherever its tokens
stand; and places that are related stay related. -/
theorem alike_outcomes (arity : ArityLookup) {sourceLength otherLength : Nat}
    (ends : places ⟨sourceLength, sourceLength⟩ ⟨otherLength, otherLength⟩)
    (alike : List.Forall₂ (Alike places) tokens others) :
    List.Forall₂ (AlikeOutcomes places) (outcomes arity sourceLength tokens)
      (outcomes arity otherLength others) := by
  fun_induction outcomes arity sourceLength tokens generalizing others with
  | case1 =>
    cases alike
    rw [outcomes]
    exact .nil
  | case2 first rest next outcome =>
    rename_i ih
    cases alike with
    | @cons _ other _ otherRest alikeFirst alikeRest =>
      obtain ⟨own, later⟩ := alike_segment alikeRest
      rw [outcomes]
      refine .cons ?_ (ih later)
      simp only [outcome, alikeFirst.token]
      split
      · exact alike_readSegment (alike_stopAt ends later) arity _ own
      · exact .error _ alikeFirst.place

end Outcomes

end TimedCommands.Script
