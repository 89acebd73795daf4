import TimedCommands.Proofs.Script.RoundTrip

/-!
# Scripts written again

The directives that a script yields always have lines of the right form, since their names were
tokens and their lists are as long as the grammar asks for (`isWritable_of_read`). Whether those
lines are read as the same directives depends on the values alone (`reread_iff`), and two kinds
of values are not: a literal beyond the largest real is taken for infinity, which has no
literal, and a text may hold a character that its line shows by a code point.
-/

namespace TimedCommands.Script

/-- No number is a name. -/
theorem numberToken_ne_name (sign : List Char) (unsigned : Bool × List Char) (name : String) :
    numberToken sign unsigned ≠ .name name := by
  rw [numberToken]
  split <;> exact Token.noConfusion

/-- A token that is a name is an identifier and no keyword. -/
theorem isName_of_frontLexeme {first : Char} {rest : List Char} {lexeme : Lexeme} {name : String}
    (front : frontLexeme first rest = .ok lexeme) (isName : lexeme.token = .name name) :
    IsName name := by
  unfold frontLexeme at front
  split at front
  case isTrue starts =>
    cases front
    have parts : (rest.takeWhile isIdentifierPart).all isIdentifierPart = true :=
      List.all_takeWhile
    simp only [wordToken] at isName
    split at isName
    · cases isName
    case h_2 noKeyword =>
      obtain rfl := Token.name.inj isName
      refine ⟨?_, noKeyword⟩
      rw [isIdentifier, String.toList_ofList, isIdentifierChars, starts, parts]
      rfl
  split at front
  · cases front
    exact absurd isName (numberToken_ne_name _ _ _)
  split at front
  · dsimp only at front
    split at front
    · cases front
    · cases front
      exact absurd isName (numberToken_ne_name _ _ _)
  split at front
  · dsimp only at front
    split at front
    · cases front
      cases isName
    · cases front
  · cases front

/-- Only what may be a name is lexed as one. -/
theorem isName_of_lexFrom {offset : Nat} {chars : List Char} {located : List Located}
    (lexed : lexFrom offset chars = .ok located) :
    ∀ found ∈ located, ∀ name, found.token = .name name → IsName name := by
  fun_induction lexFrom offset chars generalizing located with
  | case1 =>
    cases lexed
    exact fun found isToken => absurd isToken List.not_mem_nil
  | case2 =>
    rename_i ih
    exact ih lexed
  | case3 =>
    rename_i ih
    exact ih lexed
  | case4 => cases lexed
  | case5 => cases lexed
  | case6 =>
    rename_i front _ _ isTokens ih
    cases lexed
    rw [List.forall_mem_cons]
    exact ⟨fun name isName => isName_of_frontLexeme front isName, ih isTokens⟩

/-- Every directive among the outcomes was read from tokens of the script. -/
theorem exists_readSegment_of_mem {arity : ArityLookup} {sourceLength : Nat}
    {located : List Located} {directive : Directive}
    (member : .ok directive ∈ outcomes arity sourceLength located) :
    ∃ stop keyword tokens, (∀ found ∈ tokens, found ∈ located) ∧
      readSegment stop arity keyword tokens = .ok directive := by
  fun_induction outcomes arity sourceLength located with
  | case1 => cases member
  | case2 first rest next outcome ih =>
    rcases List.mem_cons.mp member with isFirst | isLater
    · obtain ⟨token, span⟩ := first
      cases token with
      | keyword keyword =>
        refine ⟨_, keyword, ownTokens rest, fun found isOwn => ?_, isFirst.symm⟩
        exact List.mem_cons_of_mem _ ((List.takeWhile_prefix _).subset isOwn)
      | _ =>
        have isError : Except.ok directive = Except.error _ := isFirst
        cases isError
    · obtain ⟨stop, keyword, tokens, inLater, isRead⟩ := ih isLater
      refine ⟨stop, keyword, tokens, fun found isToken => ?_, isRead⟩
      exact List.mem_cons_of_mem _ ((List.dropWhile_suffix _).subset (inLater found isToken))

/-- A field that some token fits which is a name only if it may be one. -/
def IsTaken (field : Field) : Prop :=
  ∃ token, field token ∧ ∀ name, token = .name name → IsName name

/-- Fields that fit tokens which were lexed are taken by tokens that can be. -/
theorem isTaken_of_fits {fields : List Field} {tokens : List Located} (fits : Fits fields tokens)
    (areNames : ∀ found ∈ tokens, ∀ name, found.token = .name name → IsName name) :
    ∀ field ∈ fields, IsTaken field := by
  induction fits with
  | nil => nofun
  | @cons field found fields tokens fitsFirst _ ih =>
    rw [List.forall_mem_cons] at areNames ⊢
    exact ⟨⟨found.token, fitsFirst, areNames.1⟩, ih areNames.2⟩

/-- A name that is taken may be one. -/
theorem isName_of_isTaken {name : String} (taken : IsTaken (Field.name name)) : IsName name := by
  obtain ⟨token, rfl, isName⟩ := taken
  exact isName name rfl

/-- A number that is taken is one. -/
theorem isNumeric_of_isTaken {value : Value} (taken : IsTaken (Field.number value)) :
    value.isNumeric = true := by
  obtain ⟨token, fits, -⟩ := taken
  cases value with
  | text content => exact fits.elim
  | _ => rfl

/-- The placeholder of a slot that is taken may be a name. -/
theorem isName_of_slotFields {slot : RawSlot} (taken : ∀ field ∈ slotFields slot, IsTaken field) :
    IsName slot.placeholder :=
  isName_of_isTaken (taken _ (.tail _ (.head _)))

/-- A lattice whose spelling is taken can be written. -/
theorem isWritable_of_latticeSpelled {arity : ArityLookup} (rank : Rank) {spec : LatticeSpec}
    {fields : List Field} (spelled : LatticeSpelled rank.axes spec fields)
    (taken : ∀ field ∈ fields, IsTaken field) : (Action.bindLattice rank spec).IsWritable arity := by
  cases spelled with
  | lattice hasAxes packing packingSpelled =>
    simp only [latticeFields, List.forall_mem_append, List.forall_mem_flatMap] at taken
    exact ⟨fun target member => isName_of_slotFields (taken.1.1.1.1 target member), hasAxes⟩

/-- What fits the fields of an action makes it one that can be written. -/
theorem isWritable_of_spelled {arity : ArityLookup} {keyword : Keyword} {action : Action}
    {fields : List Field} (spelled : Spelled arity keyword action fields)
    (taken : ∀ field ∈ fields, IsTaken field) : action.IsWritable arity := by
  cases spelled with
  | addCommand typeName placeholders known =>
    simp only [List.forall_mem_cons, List.forall_mem_map] at taken
    exact ⟨isName_of_isTaken taken.1, fun placeholder member =>
      isName_of_isTaken (taken.2 placeholder member), known⟩
  | bindConstant target value =>
    exact isName_of_slotFields (List.forall_mem_append.mp taken).1
  | bindSequence target initial increment =>
    simp only [List.forall_mem_append, List.forall_mem_cons] at taken
    exact ⟨isName_of_slotFields taken.1, isNumeric_of_isTaken taken.2.1,
      isNumeric_of_isTaken taken.2.2.1⟩
  | bindArgument target source =>
    simp only [List.forall_mem_append] at taken
    exact ⟨isName_of_slotFields taken.1, isName_of_slotFields taken.2⟩
  | bindLattice2d spec fields spelled => exact isWritable_of_latticeSpelled .two spelled taken
  | bindLattice3d spec fields spelled => exact isWritable_of_latticeSpelled .three spelled taken
  | _ => trivial

/-- A program that was read can be written again. -/
theorem isWritable_of_read {arity : ArityLookup} {source : String} {program : Program}
    (isRead : read arity source = .ok program) :
    ∀ directive ∈ program.directives, directive.IsWritable arity := by
  intro directive member
  cases lexed : lex source with
  | error error =>
    rw [read, lexed] at isRead
    cases isRead
  | ok located =>
    rw [read, lexed] at isRead
    cases isRead
    rw [readTokens_eq_outcomes] at member
    obtain ⟨outcome, isOutcome, isDirective⟩ := List.mem_filterMap.mp member
    cases outcome with
    | error error => cases isDirective
    | ok found =>
      cases isDirective
      obtain ⟨stop, keyword, tokens, inScript, isRead⟩ := exists_readSegment_of_mem isOutcome
      obtain ⟨_, ⟨fields, spelled, rfl⟩, fits⟩ :=
        readSegment_eq_ok_iff.mp isRead
      have taken := isTaken_of_fits fits fun found isToken =>
        isName_of_lexFrom lexed found (inScript found isToken)
      rw [List.forall_mem_cons, List.forall_mem_cons] at taken
      exact ⟨isName_of_isTaken taken.2.1, isWritable_of_spelled spelled taken.2.2⟩

/-- The directives of a script, written as lines, are read as the same directives and without an
error exactly if all of their values are legible. -/
theorem reread_iff {arity : ArityLookup} {source : String} {program : Program}
    (isRead : read arity source = .ok program) :
    read arity (script program.directives) = .ok ⟨program.directives, []⟩ ↔
      ∀ directive ∈ program.directives, directive.IsLegible :=
  read_script_iff (isWritable_of_read isRead)

/-- What could be read can be read again, also from a script of which not all could. -/
theorem reread_amid_errors :
    let source := "bind_constant 3 G 1 X 1.50e+3 # kept\ntoggle_all 4"
    let kept : Directive := ⟨3, "G", .bindConstant ⟨1, "X"⟩ (.real 1500.0)⟩
    read (fun _ => none) source = .ok ⟨[kept], [⟨.expected "group name" none, ⟨49, 49⟩⟩]⟩ ∧
      read (fun _ => none) (script [kept]) = .ok ⟨[kept], []⟩ := by
  intro source kept
  have isRead : read (fun _ => none) source =
      .ok ⟨[kept], [⟨.expected "group name" none, ⟨49, 49⟩⟩]⟩ := by decide +kernel
  exact ⟨isRead, (reread_iff isRead).mpr (by decide +kernel)⟩

/-- Infinity and a combining accent can be read, but not from what is written for them. -/
theorem illegible_not_reread :
    (∃ program, read (fun _ => none) "bind_constant 0 G 1 X 1e999" = .ok program ∧
      read (fun _ => none) (script program.directives) ≠ .ok ⟨program.directives, []⟩) ∧
    ∃ program, read (fun _ => none) "bind_constant 0 G 1 X \"e\u0301\"" = .ok program ∧
      read (fun _ => none) (script program.directives) ≠ .ok ⟨program.directives, []⟩ := by
  refine ⟨⟨⟨[⟨0, "G", .bindConstant ⟨1, "X"⟩ (.real (1.0 / 0.0))⟩], []⟩, ?_⟩,
    ⟨⟨[⟨0, "G", .bindConstant ⟨1, "X"⟩ (.text "e\u0301")⟩], []⟩, ?_⟩⟩ <;> decide +kernel

end TimedCommands.Script
