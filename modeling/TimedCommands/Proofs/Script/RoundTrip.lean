import TimedCommands.Proofs.Script.Acceptance
import TimedCommands.Proofs.Script.Line

/-!
# Scripts read back

The script of directives is their lines in order. All of its words being tokens, it is cut at
its keywords into the lines that it was made of (`outcomes_of_tokens`), and each line is read as
its directive exactly if the fields take all of its words (`readSegment_lineTokens_iff`). So
a script reads back as its directives exactly if their values are legible (`read_script_iff`).
-/

namespace TimedCommands

/-- The script of directives: their lines in order. -/
def script (directives : List Directive) : String :=
  String.intercalate "\n" (directives.map Directive.line)

namespace Script

/-- The words of the line of a directive. -/
def lineWords (directive : Directive) : List (List Char) :=
  directive.action.keyword.text.toList ::
    (directiveEntries directive).map fun entry => entry.word.toList

/-- The tokens behind the keyword of a line, if each of its words is one. -/
def lineTokens (directive : Directive) : List Token :=
  (directiveEntries directive).flatMap fun entry => wordTokens entry.word.toList

/-- The line of a directive is a text of its words. -/
theorem joined_line (directive : Directive) : Joined (lineWords directive) directive.line.toList := by
  let words := directive.action.keyword.text :: (directiveEntries directive).map Entry.word
  have lineWords_eq : lineWords directive = words.flatMap fun word => [word.toList] := by
    simp [words, lineWords, ← List.map_eq_flatMap, Function.comp_def]
  rw [lineWords_eq, line_eq, String.toList_intercalate]
  exact .intercalate rfl fun word _ => .single word.toList

/-- A script is a text of the words of its directives. -/
theorem joined_script (directives : List Directive) :
    Joined (directives.flatMap lineWords) (script directives).toList := by
  rw [script, String.toList_intercalate, List.map_map]
  exact Joined.intercalate rfl fun directive _ => joined_line directive

/-- Among outcomes, those of parts that each come out as wanted make up the whole. -/
theorem ofOutcomes_eq_iff {directives : List Directive} {outcomes : List (Except ReadError Directive)}
    {comesOut : Directive → Prop}
    (each : List.Forall₂ (fun directive outcome => outcome = .ok directive ↔ comesOut directive)
      directives outcomes) :
    Program.ofOutcomes outcomes = ⟨directives, []⟩ ↔ ∀ directive ∈ directives, comesOut directive := by
  induction each with
  | nil => simp [Program.ofOutcomes]
  | @cons directive outcome directives outcomes this _ ih =>
    rw [List.forall_mem_cons, ← ih, ← this]
    cases outcome with
    | ok found =>
      have both : Program.ofOutcomes (.ok found :: outcomes) = ⟨directive :: directives, []⟩ ↔
          found = directive ∧ Program.ofOutcomes outcomes = ⟨directives, []⟩ := by
        simp [Program.ofOutcomes, and_assoc]
      simpa using both
    | error error => simp [Program.ofOutcomes]

/-- Tokens that are those of directives begin with a keyword, or there are none. -/
theorem startsDirective_of_tokens {α : Type} {keyword : α → Keyword} {own : α → List Token}
    {parts : List α} {located : List Located}
    (isTokens : located.map Located.token =
      parts.flatMap fun part => .keyword (keyword part) :: own part) : StartsDirective located := by
  intro first isFirst
  cases parts with
  | nil =>
    rw [List.map_eq_nil_iff.mp isTokens] at isFirst
    cases isFirst
  | cons part parts =>
    rw [List.flatMap_cons, List.cons_append, List.map_eq_cons_iff] at isTokens
    obtain ⟨found, rest, rfl, isKeyword, -⟩ := isTokens
    cases isFirst
    rw [isKeyword]
    rfl

/-- Each keyword with the tokens behind it is read by itself. -/
theorem outcomes_of_tokens {α : Type} (arity : ArityLookup) (sourceLength : Nat)
    {keyword : α → Keyword} {own : α → List Token} {parts : List α}
    (plain : ∀ part ∈ parts, ∀ token ∈ own part, token.isKeyword = false) {located : List Located}
    (isTokens : located.map Located.token =
      parts.flatMap fun part => .keyword (keyword part) :: own part) :
    List.Forall₂
      (fun part outcome => ∃ stop tokens, tokens.map Located.token = own part ∧
        outcome = readSegment stop arity (keyword part) tokens)
      parts (outcomes arity sourceLength located) := by
  induction parts generalizing located with
  | nil =>
    rw [List.map_eq_nil_iff.mp isTokens, outcomes]
    exact .nil
  | cons part parts ih =>
    rw [List.forall_mem_cons] at plain
    rw [List.flatMap_cons, List.cons_append, List.map_eq_cons_iff] at isTokens
    obtain ⟨⟨token, span⟩, rest, rfl, isKeyword, isRest⟩ := isTokens
    obtain ⟨tokens, next, rfl, isOwn, isNext⟩ := List.map_eq_append_iff.mp isRest
    obtain rfl : token = .keyword (keyword part) := isKeyword
    have plainTokens : IsPlain tokens := by
      intro located member
      exact plain.1 located.token (isOwn ▸ List.mem_map_of_mem member)
    have cut := outcomes_segment arity sourceLength ⟨keyword part, span, tokens, plainTokens⟩
      (startsDirective_of_tokens isNext)
    rw [Segment.tokens, List.cons_append] at cut
    rw [cut]
    exact .cons ⟨_, tokens, isOwn, rfl⟩ (ih plain.2 isNext)

/-- Words that each spell a token have as many tokens as there are words. -/
theorem length_wordTokens {entries : List Entry}
    (spelled : ∀ entry ∈ entries, ∃ token, Spells entry.word.toList token) :
    (entries.flatMap fun entry => wordTokens entry.word.toList).length = entries.length := by
  induction entries with
  | nil => rfl
  | cons entry entries ih =>
    rw [List.forall_mem_cons] at spelled
    obtain ⟨⟨token, spells⟩, spelledRest⟩ := spelled
    rw [List.flatMap_cons, spells.wordTokens, List.length_append, ih spelledRest, Nat.add_comm]
    rfl

/-- The tokens of words fit the fields of their entries exactly if each is taken by its own. -/
theorem fits_wordTokens_iff {entries : List Entry}
    (spelled : ∀ entry ∈ entries, ∃ token, Spells entry.word.toList token) :
    List.Forall₂ (fun (field : Field) token => field token) (entries.map Entry.field)
        (entries.flatMap fun entry => wordTokens entry.word.toList) ↔
      ∀ entry ∈ entries, entry.IsShown := by
  induction entries with
  | nil => simp
  | cons entry entries ih =>
    rw [List.forall_mem_cons] at spelled
    obtain ⟨⟨token, spells⟩, spelledRest⟩ := spelled
    rw [List.map_cons, List.flatMap_cons, spells.wordTokens, List.singleton_append,
      List.forall₂_cons, ih spelledRest, List.forall_mem_cons, Entry.isShown_iff _ spells]

/-- The tokens of a line, read behind its keyword, are its directive exactly if each of its words
is taken by its field. -/
theorem readSegment_lineTokens_iff {arity : ArityLookup} {directive : Directive}
    (writable : directive.IsWritable arity)
    (spelled : ∀ entry ∈ directiveEntries directive, ∃ token, Spells entry.word.toList token)
    {stop : Stop} {tokens : List Located}
    (isTokens : tokens.map Located.token = lineTokens directive) :
    readSegment stop arity directive.action.keyword tokens = .ok directive ↔
      ∀ entry ∈ directiveEntries directive, entry.IsShown := by
  have fits_iff (fields : List Field) : Fits fields tokens ↔
      List.Forall₂ (fun (field : Field) token => field token) fields (lineTokens directive) := by
    rw [← isTokens, List.forall₂_map_right_iff]
    rfl
  have count := length_wordTokens spelled
  rw [readSegment_eq_ok_iff, ← fits_wordTokens_iff spelled]
  constructor
  · rintro ⟨_, ⟨fields, spelledFields, rfl⟩, fits⟩
    have fitsLine := (fits_iff _).mp fits
    have length := fitsLine.length_eq
    rw [lineTokens, count] at length
    simp only [directiveEntries, List.length_cons, Nat.add_right_cancel_iff] at length
    rw [fields_of_spelled spelledFields length] at fitsLine
    exact fitsLine
  · intro fits
    exact ⟨_, ⟨_, spelled_entries writable.2, rfl⟩, (fits_iff _).mpr fits⟩

/-- A directive is written as it is read exactly if it is legible. -/
theorem isShown_directiveEntries_iff {arity : ArityLookup} {directive : Directive}
    (writable : directive.IsWritable arity) :
    (∀ entry ∈ directiveEntries directive, entry.IsShown) ↔ directive.IsLegible := by
  rw [directiveEntries, List.forall_mem_cons, List.forall_mem_cons,
    isShown_actionEntries_iff writable.2]
  simp [Entry.isShown_time, Entry.isShown_name writable.1, Directive.IsLegible]

/-- Nothing in the line of a directive is written as a keyword, but for its own. -/
theorem isPlain_directiveEntries {arity : ArityLookup} {directive : Directive}
    (writable : directive.IsWritable arity) :
    ∀ entry ∈ directiveEntries directive, entry.IsPlain := by
  rw [directiveEntries, List.forall_mem_cons, List.forall_mem_cons]
  exact ⟨.inl ⟨_, spells_natural _, rfl⟩, Entry.isPlain_name writable.1,
    isPlain_actionEntries writable.2⟩

/-- The tokens of a line behind its keyword are no keywords. -/
theorem plain_lineTokens {arity : ArityLookup} {directive : Directive}
    (writable : directive.IsWritable arity)
    (spelled : ∀ entry ∈ directiveEntries directive, ∃ token, Spells entry.word.toList token) :
    ∀ token ∈ lineTokens directive, token.isKeyword = false := by
  intro token member
  obtain ⟨entry, isEntry, isToken⟩ := List.mem_flatMap.mp member
  obtain ⟨only, spells⟩ := spelled entry isEntry
  rw [spells.wordTokens, List.mem_singleton] at isToken
  obtain rfl := isToken
  rcases isPlain_directiveEntries writable entry isEntry with ⟨other, spellsOther, plain⟩ | noTokens
  · rwa [spells.unique spellsOther]
  · exact absurd spells (not_spells noTokens _)

/-- The tokens of a script are those of its lines, one line after the other. -/
theorem tokens_script {directives : List Directive}
    (spelled : ∀ directive ∈ directives, ∀ entry ∈ directiveEntries directive,
      ∃ token, Spells entry.word.toList token) :
    tokens? (script directives).toList = some (directives.flatMap fun directive =>
      .keyword directive.action.keyword :: lineTokens directive) := by
  have spelledWords : ∀ word ∈ directives.flatMap lineWords, ∃ token, Spells word token := by
    simp only [lineWords, List.forall_mem_flatMap, List.forall_mem_cons, List.forall_mem_map]
    exact fun directive member => ⟨⟨_, spells_keyword _⟩, spelled directive member⟩
  rw [tokens_joined (joined_script directives) spelledWords, List.flatMap_assoc]
  congr 2
  funext directive
  rw [lineWords, List.flatMap_cons, (spells_keyword _).wordTokens, List.flatMap_map]
  rfl

/-- A script whose words are all tokens is read line by line. -/
theorem read_script_of_spelled {arity : ArityLookup} {directives : List Directive}
    (writable : ∀ directive ∈ directives, directive.IsWritable arity)
    (spelled : ∀ directive ∈ directives, ∀ entry ∈ directiveEntries directive,
      ∃ token, Spells entry.word.toList token) :
    read arity (script directives) = .ok ⟨directives, []⟩ ↔
      ∀ directive ∈ directives, directive.IsLegible := by
  obtain ⟨located, lexed, isTokens⟩ := lex_eq_ok_iff.mpr (tokens_script spelled)
  have readsAll : read arity (script directives) =
      .ok (Program.ofOutcomes (outcomes arity (script directives).utf8ByteSize located)) := by
    rw [read, lexed, ← readTokens_eq_outcomes]
  have each := outcomes_of_tokens arity (script directives).utf8ByteSize
    (fun directive member => plain_lineTokens (writable directive member) (spelled directive member))
    isTokens
  rw [readsAll, Except.ok.injEq]
  apply ofOutcomes_eq_iff
  have lines := fun directive member => And.intro (writable directive member)
    (spelled directive member)
  refine ((List.forall₂_and_left _ _).mpr ⟨lines, each⟩).imp ?_
  rintro directive outcome ⟨⟨isWritable, isSpelled⟩, stop, tokens, isOwn, rfl⟩
  rw [readSegment_lineTokens_iff isWritable isSpelled isOwn,
    isShown_directiveEntries_iff isWritable]

/-- If a script has tokens, each word of its lines is one. -/
theorem spelled_of_lex {arity : ArityLookup} {directives : List Directive}
    (writable : ∀ directive ∈ directives, directive.IsWritable arity) {located : List Located}
    (lexed : lex (script directives) = .ok located) :
    ∀ directive ∈ directives, ∀ entry ∈ directiveEntries directive,
      ∃ token, Spells entry.word.toList token := by
  have isTokens := lex_eq_ok_iff.mp ⟨located, lexed, rfl⟩
  have areWords : ∀ word ∈ directives.flatMap lineWords,
      (∃ token, Spells word token) ∨ ∀ next, tokens? (word ++ next) = none := by
    simp only [lineWords, List.forall_mem_flatMap, List.forall_mem_cons, List.forall_mem_map]
    refine fun directive member => ⟨.inl ⟨_, spells_keyword _⟩, fun entry isEntry => ?_⟩
    obtain ⟨token, spells, -⟩ | noWord :=
      isPlain_directiveEntries (writable directive member) entry isEntry
    · exact .inl ⟨token, spells⟩
    · exact .inr noWord
  have spelled := spelled_of_tokens (joined_script directives) areWords isTokens
  simp only [lineWords, List.forall_mem_flatMap, List.forall_mem_cons, List.forall_mem_map] at spelled
  exact fun directive member => (spelled directive member).2

/-- If the directives of a list can be written at all, their script reads back as the same list
without an error exactly if all of their values are legible. -/
theorem read_script_iff {arity : ArityLookup} {directives : List Directive}
    (writable : ∀ directive ∈ directives, directive.IsWritable arity) :
    read arity (script directives) = .ok ⟨directives, []⟩ ↔
      ∀ directive ∈ directives, directive.IsLegible := by
  constructor
  · intro isRead
    cases lexed : lex (script directives) with
    | error error =>
      rw [read, lexed] at isRead
      cases isRead
    | ok located =>
      exact (read_script_of_spelled writable (spelled_of_lex writable lexed)).mp isRead
  · intro legible
    refine (read_script_of_spelled writable fun directive member entry isEntry => ?_).mpr legible
    have shown := (isShown_directiveEntries_iff (writable directive member)).mpr
      (legible directive member)
    obtain ⟨token, spells, -⟩ := shown entry isEntry
    exact ⟨token, spells⟩

/-- Directives whose lines have the form that their keywords ask for are read back from their
script as they are, without an error, if their reals are finite and none of their texts holds a
character that is written by its code point. -/
theorem read_script {arity : ArityLookup} {directives : List Directive}
    (writable : ∀ directive ∈ directives, directive.IsWritable arity)
    (legible : ∀ directive ∈ directives, directive.IsLegible) :
    read arity (script directives) = .ok ⟨directives, []⟩ :=
  (read_script_iff writable).mpr legible

/-- Directives of every kind of field, with values that are hard to write. -/
def survey : List Directive :=
  [⟨0, "_g1", .createGroup⟩,
    ⟨18446744073709551615, "enable", .addCommand "Move" ["x", "rectangular"]⟩,
    ⟨3, "_g1", .addCommand "Idle" []⟩,
    ⟨3, "_g1", .bindConstant ⟨-9223372036854775808, "x"⟩ (.text "say \"#\" // \\ \r\n\t\x00")⟩,
    ⟨3, "_g1", .bindConstant ⟨0, "x"⟩ (.real (-0.0))⟩,
    ⟨4, "inf", .bindSequence ⟨1, "e5"⟩ (.integer 9223372036854775807) (.real 5e-324)⟩,
    ⟨4, "NaN", .bindArgument ⟨1, "x"⟩ ⟨2, "y"⟩⟩,
    ⟨5, "_g1", .bindLattice .two
      ⟨[⟨1, "x"⟩, ⟨1, "y"⟩], [-1, 0], [0.1, 1e16], [123456.789, 1e-5], .rectangular⟩⟩,
    ⟨5, "_g1", .bindLattice .three
      ⟨[⟨1, "x"⟩, ⟨1, "y"⟩, ⟨2, "z"⟩], [1, 2, 3], [1e22, -2.5, 9007199254740993.0],
        [1.7976931348623157e308, 2.2250738585072014e-308, 1e23], .triangular⟩⟩,
    ⟨6, "_g1", .switchCommand false (-1)⟩,
    ⟨6, "_g1", .switchAll true⟩,
    ⟨7, "_g1", .executeSequence 0 (-5)⟩]

/-- The directives of a survey, among them a lattice, are read back from their script. -/
theorem read_script_survey :
    read (CommandTypes.ofList [("Move", 2), ("Idle", 0)]).arity (script survey) =
      .ok ⟨survey, []⟩ :=
  read_script (by decide +kernel) (by decide +kernel)

end Script

end TimedCommands
