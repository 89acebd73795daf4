import TimedCommands.Proofs.Script.Reprint
import TimedCommands.Proofs.Validation.Acceptance

/-!
# Names

Validation takes a name if it is an identifier, and a script has a name where a token is one. These
are the same but for the keywords: a keyword is spelled like an identifier, and is a token of its own
(`lex_eq_name_iff`, `lex_keyword`). So all names that come out of a script pass validation, and a
directive that passes it can be written and read back unless one of its names is a keyword
(`read_line_iff`).
-/

namespace TimedCommands

/-- Every keyword is listed. -/
theorem Keyword.mem_all (keyword : Keyword) : keyword ∈ all := by
  cases keyword <;> decide

/-- A text is no keyword if it is the text of none. -/
theorem Keyword.ofText?_eq_none_iff {text : String} :
    ofText? text = none ↔ ∀ keyword : Keyword, text ≠ keyword.text := by
  rw [ofText?, List.find?_eq_none]
  constructor
  · rintro none keyword rfl
    exact none keyword keyword.mem_all (decide_eq_true rfl)
  · intro none keyword _ same
    exact none keyword (of_decide_eq_true same).symm

/-- A text may be a name of a script if it is an identifier and no keyword. -/
theorem isName_iff {name : String} :
    IsName name ↔ isIdentifier name = true ∧ ∀ keyword : Keyword, name ≠ keyword.text := by
  rw [IsName, Keyword.ofText?_eq_none_iff]

/-! The names of a directive. -/

namespace Action

/-- The placeholders that an action names. -/
def placeholders : Action → List Placeholder
  | addCommand _ placeholders => placeholders
  | bindConstant target _ => [target.placeholder]
  | bindSequence target _ _ => [target.placeholder]
  | bindArgument target source => [target.placeholder, source.placeholder]
  | bindLattice _ spec => spec.targets.map (·.placeholder)
  | _ => []

/-- The command type that an action names, if it names one. -/
def typeName? : Action → Option String
  | addCommand typeName _ => some typeName
  | _ => none

end Action

/-- The names that a directive gives to groups and placeholders. -/
def Directive.names (directive : Directive) : List String :=
  directive.group :: directive.action.placeholders

namespace Check

variable {what : String}

/-- The name of a group is valid if it is an identifier. -/
@[simp] theorem group_eq_ok_iff {name : GroupName} :
    group name = .ok () ↔ isIdentifier name = true :=
  that_eq_ok_iff

/-- The name of a placeholder is valid if it is an identifier. -/
@[simp] theorem placeholder_eq_ok_iff {name : Placeholder} :
    placeholder name = .ok () ↔ isIdentifier name = true :=
  that_eq_ok_iff

/-- The placeholder of a valid slot is an identifier. -/
theorem isIdentifier_of_slot {target : RawSlot} (valid : slot what target = .ok ()) :
    isIdentifier target.placeholder = true := by
  obtain ⟨-, valid⟩ := check_bind_eq_ok_iff.mp valid
  exact placeholder_eq_ok_iff.mp valid

/-- Valid placeholders of a command are identifiers. -/
theorem isIdentifier_of_placeholders {seen names : List Placeholder}
    (valid : placeholders seen names = .ok ()) : ∀ name ∈ names, isIdentifier name = true := by
  induction names generalizing seen with
  | nil => nofun
  | cons name rest ih =>
    obtain ⟨first, valid⟩ := check_bind_eq_ok_iff.mp valid
    obtain ⟨-, valid⟩ := check_bind_eq_ok_iff.mp valid
    exact List.forall_mem_cons.mpr ⟨placeholder_eq_ok_iff.mp first, ih valid⟩

/-- The placeholders of a valid lattice are identifiers. -/
theorem isIdentifier_of_lattice {rank : Rank} {spec : LatticeSpec}
    (valid : lattice rank spec = .ok ()) :
    ∀ target ∈ spec.targets, isIdentifier target.placeholder = true := by
  obtain ⟨-, valid⟩ := check_bind_eq_ok_iff.mp valid
  obtain ⟨-, valid⟩ := check_bind_eq_ok_iff.mp valid
  obtain ⟨-, valid⟩ := check_bind_eq_ok_iff.mp valid
  obtain ⟨-, valid⟩ := check_bind_eq_ok_iff.mp valid
  obtain ⟨targets, -⟩ := check_bind_eq_ok_iff.mp valid
  exact fun target member => isIdentifier_of_slot (forM_eq_ok_iff.mp targets target member)

/-- The placeholders of an action that passes its check are identifiers. -/
theorem isIdentifier_of_action {context : ValidationContext} {name : GroupName} {did : Action}
    (valid : action context name did = .ok ()) :
    ∀ name ∈ did.placeholders, isIdentifier name = true := by
  cases did with
  | addCommand typeName names =>
    obtain ⟨-, valid⟩ := check_bind_eq_ok_iff.mp valid
    exact isIdentifier_of_placeholders valid
  | bindConstant target value =>
    exact List.forall_mem_singleton.mpr (isIdentifier_of_slot valid)
  | bindSequence target initial increment =>
    obtain ⟨valid, -⟩ := check_bind_eq_ok_iff.mp valid
    exact List.forall_mem_singleton.mpr (isIdentifier_of_slot valid)
  | bindArgument target source =>
    obtain ⟨valid, validSource⟩ := check_bind_eq_ok_iff.mp valid
    exact List.forall_mem_cons.mpr ⟨isIdentifier_of_slot valid,
      List.forall_mem_singleton.mpr (isIdentifier_of_slot validSource)⟩
  | bindLattice rank spec =>
    exact List.forall_mem_map.mpr (isIdentifier_of_lattice valid)
  | _ => nofun

/-- The names of a directive that passes its check are identifiers. -/
theorem isIdentifier_of_directive {context : ValidationContext} {checked : Directive}
    (valid : directive context checked = .ok ()) :
    ∀ name ∈ checked.names, isIdentifier name = true := by
  obtain ⟨validGroup, valid⟩ := check_bind_eq_ok_iff.mp valid
  exact List.forall_mem_cons.mpr ⟨group_eq_ok_iff.mp validGroup, isIdentifier_of_action valid⟩

end Check

/-! Directives in range are written in the right form if their names are such. -/

/-- Only numbers are the bounds of a progression. -/
theorem Progression.isNumeric_of_ofValues? {initial increment : Value}
    (some : (ofValues? initial increment).isSome = true) :
    initial.isNumeric = true ∧ increment.isNumeric = true := by
  cases initial <;> cases increment <;> simp_all [ofValues?, Value.asReal?, Value.isNumeric]

/-- The names in the line of an action that has the right form are such. -/
theorem Action.isName_of_isWritable {arity : ArityLookup} {action : Action}
    (writable : action.IsWritable arity) :
    (∀ name ∈ action.placeholders, IsName name) ∧
      ∀ typeName ∈ action.typeName?, IsName typeName := by
  cases action with
  | addCommand typeName names =>
    obtain ⟨isType, areNames, -⟩ := writable
    simpa [placeholders, typeName?] using And.intro areNames isType
  | bindSequence target initial increment => simpa [placeholders, typeName?] using writable.1
  | bindLattice rank spec => simpa [placeholders, typeName?] using writable.1
  | bindConstant | bindArgument => simpa [IsWritable, placeholders, typeName?] using writable
  | _ => simp [placeholders, typeName?]

/-- The line of an action in range has the right form if the names in it are such. -/
theorem Action.isWritable_of_isName {arity : ArityLookup} {action : Action}
    (inRange : action.InRange arity) (areNames : ∀ name ∈ action.placeholders, IsName name)
    (isType : ∀ typeName ∈ action.typeName?, IsName typeName) : action.IsWritable arity := by
  cases action with
  | addCommand typeName names => exact ⟨isType typeName rfl, areNames, inRange.1⟩
  | bindSequence target initial increment =>
    exact ⟨List.forall_mem_singleton.mp areNames, Progression.isNumeric_of_ofValues? inRange.2⟩
  | bindLattice rank spec =>
    exact ⟨List.forall_mem_map.mp areNames,
      inRange.targets, inRange.dims, inRange.origin, inRange.lengths⟩
  | bindConstant | bindArgument => simpa [IsWritable, placeholders] using areNames
  | _ => trivial

/-- All names in the line of a directive that has the right form are such. -/
theorem Directive.isName_of_isWritable {arity : ArityLookup} {directive : Directive}
    (writable : directive.IsWritable arity) : ∀ name ∈ directive.names, IsName name :=
  List.forall_mem_cons.mpr ⟨writable.1, (Action.isName_of_isWritable writable.2).1⟩

/-- A directive in range can be written if its names may be names and its type too. -/
theorem Directive.isWritable_of_isName {arity : ArityLookup} {directive : Directive}
    (inRange : directive.action.InRange arity) (areNames : ∀ name ∈ directive.names, IsName name)
    (isType : ∀ typeName ∈ directive.action.typeName?, IsName typeName) :
    directive.IsWritable arity := by
  obtain ⟨isGroup, arePlaceholders⟩ := List.forall_mem_cons.mp areNames
  exact ⟨isGroup, Action.isWritable_of_isName inRange arePlaceholders isType⟩

/-- The script of one directive is its line. -/
theorem script_singleton (directive : Directive) : script [directive] = directive.line := by
  simp [script, String.intercalate_singleton]

namespace Script

/-- A text is one token that is this text as a name exactly if it may be one. -/
theorem lex_eq_name_iff {name : String} :
    (∃ span, lex name = .ok [⟨.name name, span⟩]) ↔ IsName name := by
  constructor
  · rintro ⟨span, lexed⟩
    exact isName_of_lexFrom lexed _ (List.mem_singleton_self _) name rfl
  · exact fun isName => lex_of_spells (spells_name isName)

/-- The text of a keyword is lexed as that keyword and nothing else. -/
theorem lex_keyword (keyword : Keyword) :
    ∃ span, lex keyword.text = .ok [⟨.keyword keyword, span⟩] :=
  lex_of_spells (spells_keyword keyword)

/-- The text of a keyword is an identifier. -/
theorem isIdentifier_keyword (keyword : Keyword) : isIdentifier keyword.text = true := by
  cases keyword <;> decide

/-- A directive that is valid and can be told from its line is read back from it unless one of its
names is a keyword. Validation knows command types by their registration and not by their
spelling, so the name of a type is to be asked for. -/
theorem read_line_iff {context : ValidationContext} {directive : Directive}
    (valid : Check.directive context directive = .ok ()) (legible : directive.IsLegible)
    (isType : ∀ typeName ∈ directive.action.typeName?, IsName typeName) :
    read context.arity directive.line = .ok ⟨[directive], []⟩ ↔
      ∀ name ∈ directive.names, ∀ keyword : Keyword, name ≠ keyword.text := by
  have areIdentifiers := Check.isIdentifier_of_directive valid
  constructor
  · intro isRead name member
    have writable := isWritable_of_read isRead directive (List.mem_singleton_self directive)
    exact (isName_iff.mp (Directive.isName_of_isWritable writable name member)).2
  · intro noKeywords
    have areNames : ∀ name ∈ directive.names, IsName name := fun name member =>
      isName_iff.mpr ⟨areIdentifiers name member, noKeywords name member⟩
    have writable :=
      Directive.isWritable_of_isName (Check.inRange_of_directive valid) areNames isType
    rw [← script_singleton]
    exact (read_script_iff (List.forall_mem_singleton.mpr writable)).mpr
      (List.forall_mem_singleton.mpr legible)

/-- A name is an identifier exactly if it is read as one, unless it is a keyword. A keyword is an
identifier too, but is read as a token of its own. All names that come out of a script pass
validation; the other way, a directive that passes it is read back from its line, if its values and
its command type can be told from it, exactly if no name in it is a keyword. -/
theorem names_agree_iff_no_keyword (name : String) :
    ((isIdentifier name = true ↔ ∃ span, lex name = .ok [⟨.name name, span⟩]) ↔
      ∀ keyword : Keyword, name ≠ keyword.text) ∧
    (∀ keyword : Keyword, name = keyword.text →
      isIdentifier name = true ∧ ∃ span, lex name = .ok [⟨.keyword keyword, span⟩]) ∧
    (∀ arity source program, read arity source = .ok program →
      ∀ directive ∈ program.directives, (name = directive.group → Check.group name = .ok ()) ∧
        (name ∈ directive.action.placeholders → Check.placeholder name = .ok ())) ∧
    ∀ context directive, Check.directive context directive = .ok () → directive.IsLegible →
      (∀ typeName ∈ directive.action.typeName?, IsName typeName) →
        (read context.arity directive.line = .ok ⟨[directive], []⟩ ↔
          ∀ given ∈ directive.names, ∀ keyword : Keyword, given ≠ keyword.text) := by
  refine ⟨?_, ?_, ?_, fun context directive => read_line_iff⟩
  · rw [lex_eq_name_iff, isName_iff]
    constructor
    · rintro agree keyword rfl
      exact (agree.mp (isIdentifier_keyword keyword)).2 keyword rfl
    · exact fun noKeyword => (and_iff_left noKeyword).symm
  · rintro keyword rfl
    exact ⟨isIdentifier_keyword keyword, lex_keyword keyword⟩
  · intro arity source program isRead directive member
    have areNames := Directive.isName_of_isWritable (isWritable_of_read isRead directive member)
    simp only [Check.group_eq_ok_iff, Check.placeholder_eq_ok_iff]
    exact ⟨fun isGroup => (areNames name (isGroup ▸ List.mem_cons_self)).1,
      fun isPlaceholder => (areNames name (List.mem_cons_of_mem _ isPlaceholder)).1⟩

/-- A name may begin with a keyword. -/
theorem read_line_keyword_prefix :
    let directive : Directive := ⟨3, "toggle_all_x", .bindConstant ⟨1, "at_once"⟩ (.integer 5)⟩
    Check.directive (.fresh (fun _ => none) true false) directive = .ok () ∧
      read (fun _ => none) directive.line = .ok ⟨[directive], []⟩ := by
  intro directive
  have valid : Check.directive (.fresh (fun _ => none) true false) directive = .ok () := by
    decide +kernel
  have noKeywords : ∀ name ∈ directive.names, ∀ keyword : Keyword, name ≠ keyword.text := by
    refine List.forall_mem_cons.mpr
      ⟨fun keyword => ?_, List.forall_mem_singleton.mpr fun keyword => ?_⟩
    all_goals cases keyword <;> decide
  exact ⟨valid, ((names_agree_iff_no_keyword directive.group).2.2.2 _ directive valid (by decide)
    nofun).mpr noKeywords⟩

/-- A keyword passes as the name of a group that cannot be read back. -/
theorem keyword_accepted_but_not_read :
    isIdentifier "toggle_all" = true ∧
      (¬ ∃ span, lex "toggle_all" = .ok [⟨.name "toggle_all", span⟩]) ∧
      Check.directive (.fresh (fun _ => none) true false) ⟨0, "toggle_all", .createGroup⟩ = .ok () ∧
      read (fun _ => none) (Directive.line ⟨0, "toggle_all", .createGroup⟩) ≠
        .ok ⟨[⟨0, "toggle_all", .createGroup⟩], []⟩ := by
  refine ⟨by decide, ?_, by decide +kernel, by decide +kernel⟩
  rw [lex_eq_name_iff]
  decide

end Script

end TimedCommands
