import TimedCommands.Proofs.Script.Grammar
import TimedCommands.Proofs.Script.Segments

/-!
# What a segment says

A keyword with the tokens behind it says a directive if they are spelled as the production of
its keyword asks: the time, the group, and the fields of the action, with nothing behind them.
Reading accepts such segments and no others (`segment_read_iff`). What the literals of a segment
mean is told by their characters, without the functions that read them.
-/

namespace TimedCommands.Script

/-- A segment says a directive: behind its keyword stand an unsigned integer literal of the time,
the name of the group, and the fields that the production of the keyword has for the action. -/
def Segment.Says (arity : ArityLookup) (segment : Segment) (directive : Directive) : Prop :=
  ∃ time literal group own fields,
    segment.own = time :: group :: own ∧
      time.token = .integer literal ∧ NaturalText literal.toList directive.time.toNat ∧
      group.token = .name directive.group ∧
      Spelled arity segment.keyword directive.action fields ∧ Fits fields own

/-- A segment is read as a directive exactly if its fields are and use up its tokens. -/
theorem readSegment_eq_ok_iff {stop : Stop} {arity : ArityLookup} {keyword : Keyword}
    {own : List Located} {directive : Directive} :
    readSegment stop arity keyword own = .ok directive ↔
      ∃ fields, DirectiveSpelled arity keyword directive fields ∧ Fits fields own := by
  rw [← readFields_eq_ok_iff arity keyword own stop, readSegment]
  have forward := (readFields arity keyword).forward ⟨own, stop⟩
  generalize (readFields arity keyword).run ⟨own, stop⟩ = result at forward
  obtain ⟨_ | found, left, stopAfter⟩ := result
  · simp
  · obtain rfl : stopAfter = stop := forward.stop
    cases left <;> simp

/-- What a segment says is what is read from its tokens. -/
theorem says_iff_readSegment (stop : Stop) (arity : ArityLookup) (segment : Segment)
    (directive : Directive) :
    readSegment stop arity segment.keyword segment.own = .ok directive ↔
      segment.Says arity directive := by
  rw [readSegment_eq_ok_iff]
  constructor
  · rintro ⟨_, ⟨fields, spelled, rfl⟩, fits⟩
    obtain ⟨time, rest, ⟨literal, isLiteral, denotes⟩, fitsRest, own⟩ :=
      List.forall₂_cons_left_iff.mp fits
    obtain ⟨group, others, isGroup, fitsFields, rfl⟩ := List.forall₂_cons_left_iff.mp fitsRest
    exact ⟨time, literal, group, others, fields, own, isLiteral, denotes, isGroup, spelled,
      fitsFields⟩
  · rintro ⟨time, literal, group, own, fields, tokens, isLiteral, denotes, isGroup, spelled, fits⟩
    rw [tokens]
    exact ⟨_, ⟨fields, spelled, rfl⟩, .cons ⟨literal, isLiteral, denotes⟩ (.cons isGroup fits)⟩

/-- A segment says one directive at most. -/
theorem Segment.Says.unique {arity : ArityLookup} {segment : Segment} {directive other : Directive}
    (here : segment.Says arity directive) (there : segment.Says arity other) :
    directive = other := by
  have read := (says_iff_readSegment (stopAt 0 []) arity segment directive).mpr here
  rw [(says_iff_readSegment (stopAt 0 []) arity segment other).mpr there] at read
  exact (Except.ok.inj read).symm

/-- Reading accepts exactly the segments that say a directive, and that directive is what it
yields. Any other segment yields one error and no directive. -/
theorem segment_read_iff (arity : ArityLookup) (sourceLength : Nat) (segment : Segment) :
    (∀ directive, readTokens arity sourceLength segment.tokens = ⟨[directive], []⟩ ↔
      segment.Says arity directive) ∧
    ((¬ ∃ directive, segment.Says arity directive) →
      ∃ error, readTokens arity sourceLength segment.tokens = ⟨[], [error]⟩) := by
  simp only [readTokens_eq_outcomes, outcomes_alone,
    ← says_iff_readSegment (stopAt sourceLength []) arity segment]
  refine ⟨fun directive => ?_, fun nothing => ?_⟩
  · cases readSegment (stopAt sourceLength []) arity segment.keyword segment.own <;>
      simp [Program.ofOutcomes]
  · cases read : readSegment (stopAt sourceLength []) arity segment.keyword segment.own with
    | ok directive => exact absurd ⟨directive, read⟩ nothing
    | error error => exact ⟨error, rfl⟩

end TimedCommands.Script
