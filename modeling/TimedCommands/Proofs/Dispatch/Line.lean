import TimedCommands.Dispatch.Line
import TimedCommands.Proofs.Binding.Progression
import TimedCommands.Proofs.Json.Scaling
import TimedCommands.Proofs.Json.Tree

/-!
# Lines read back

The line of a call has one tree, an object of three members (`ofChars_lineChars`). Its time, its
command type and its integers and texts are read back as they were. A real is read as its digits
are worth after two roundings, and only if it is finite (`Json.reread?`), which is the real itself if
its digits are few (`Json.reread_of_isShort`); yet if it is finite it is the real nearest to its
literal, so the line still tells it from all others (`Call.eq_of_line_eq`).
-/

namespace TimedCommands

/-- What a real comes to when it is written in a line and read. -/
def Json.reread? (real : Float) : Option Float := do
  let (literal, _) ← Json.readLiteral? (Json.realFormat.write real).toList
  literal.real?

namespace Value

/-- What a value comes to when it is written in a line and read. -/
def reread? : Value → Option Value
  | integer number => some (integer number)
  | real number => (Json.reread? number).map real
  | text content => some (text content)

/-- Whether a value is no infinite real and has a number. -/
def IsFinite : Value → Prop
  | real number => number.isFinite = true
  | _ => True

/-- The value that is nearest to a part of a line. Integers and texts are what they are read as. -/
def nearest? : Json.Tree → Option Value
  | .number literal =>
    if literal.isWhole then ofJson? (.number literal) else some (real literal.nearest)
  | tree => ofJson? tree

end Value

/-- All reals that are not finite have one written form. -/
theorem Json.write_of_not_finite {real : Float} (notFinite : real.isFinite = false) :
    Json.realFormat.write real = "null" := by
  have isWord := RealFormat.write_of_not_finite Json.realFormat notFinite
  simp only [List.mem_cons, List.not_mem_nil, or_false] at isWord
  rcases isWord with isWord | isWord | isWord <;> exact isWord

/-- A real that is not finite does not come back. -/
theorem Json.reread_of_not_finite {real : Float} (notFinite : real.isFinite = false) :
    Json.reread? real = none := by
  rw [reread?, write_of_not_finite notFinite]
  rfl

/-- Whether a real is written as a short literal. -/
def Json.IsShort (real : Float) : Prop :=
  ∃ literal, Json.readLiteral? (Json.realFormat.write real).toList = some (literal, []) ∧ literal.IsShort

/-- A real that is written as a short literal comes back. -/
theorem Json.reread_of_isShort {real : Float} (short : Json.IsShort real) :
    Json.reread? real = some real := by
  obtain ⟨literal, isLiteral, short⟩ := short
  have finite : real.isFinite = true := by
    by_contra notFinite
    rw [write_of_not_finite (Bool.not_eq_true _ ▸ notFinite)] at isLiteral
    cases isLiteral
  obtain ⟨found, reads, -, nearest⟩ := reads_real realFormat finite
  have alone := reads [] nofun
  rw [List.append_nil, isLiteral] at alone
  cases alone
  rw [reread?, isLiteral, ← nearest]
  exact Literal.real?_of_isShort short

example : Json.IsShort (-12.5) := ⟨⟨true, ['1', '2'], ['5'], none⟩, by decide +kernel, by decide +kernel⟩

/-- A written value is read as one tree. What that stands for is what the value comes to, and the
value nearest to it is the value itself. -/
theorem Value.reads_json (value : Value) :
    ∃ tree, Json.Reads value.json tree ∧ ofJson? tree = value.reread? ∧
      (value.IsFinite → nearest? tree = some value) := by
  cases value with
  | integer number =>
    have least : Int64.minValue.toInt ≤ number.toInt := number.minValue_le_toInt
    have below : number.toInt < UInt64.size := by
      have := number.toInt_lt
      have limit : UInt64.size = 2 ^ 64 := rfl
      omega
    obtain ⟨literal, reads, whole, worth⟩ := Json.reads_integer least below
    have same : ofJson? (.number literal) = some (integer number) := by
      simp [ofJson?, worth, Progression.fitInteger?_toInt]
    refine ⟨.number literal, Json.reads_literal reads, same, fun _ => ?_⟩
    rw [nearest?, if_pos whole, same]
  | real number =>
    cases finite : number.isFinite with
    | true =>
      obtain ⟨literal, reads, noInteger, nearest⟩ := Json.reads_real Json.realFormat finite
      have alone := reads [] nofun
      rw [List.append_nil] at alone
      have worth : literal.number? = literal.real?.map Json.Number.real := by
        rw [Json.Literal.number?, noInteger]
        rfl
      refine ⟨.number literal, Json.reads_literal reads, ?_, fun _ => ?_⟩
      · rw [reread?, Json.reread?, alone, ofJson?, worth]
        cases isReal : literal.real? <;> simp [isReal]
      · rw [nearest?, noInteger, nearest]
        rfl
    | false =>
      refine ⟨.null, ?_, ?_, fun isFinite => ?_⟩
      · rw [json, Json.write_of_not_finite finite]
        exact Json.reads_null
      · rw [reread?, Json.reread_of_not_finite finite]
        rfl
      · rw [IsFinite, finite] at isFinite
        cases isFinite
  | text content =>
    exact ⟨_, Json.reads_quote content, by simp [ofJson?, reread?], fun _ => by simp [nearest?, ofJson?]⟩

/-- Values are read one by one, and finite ones have their nearest reals. -/
theorem Value.reads_all (values : List Value) :
    ∃ trees, List.Forall₂ Json.Reads (values.map json) trees ∧
      trees.mapM ofJson? = values.mapM reread? ∧
      ((∀ value ∈ values, value.IsFinite) → trees.mapM nearest? = some values) := by
  induction values with
  | nil => exact ⟨[], .nil, rfl, fun _ => rfl⟩
  | cons value values ih =>
    obtain ⟨tree, reads, same, nearest⟩ := value.reads_json
    obtain ⟨trees, allRead, allSame, allNearest⟩ := ih
    refine ⟨tree :: trees, .cons reads allRead, ?_, fun finite => ?_⟩
    · rw [List.mapM_cons, List.mapM_cons, same, allSame]
    · rw [List.forall_mem_cons] at finite
      rw [List.mapM_cons, nearest finite.1, allNearest finite.2]
      rfl

namespace Call

/-- A text of parts that are not empty is no shorter than there are parts. -/
theorem length_le_intercalate {parts : List (List Char)} (some : ∀ part ∈ parts, part ≠ []) :
    parts.length ≤ ([','].intercalate parts).length := by
  induction parts with
  | nil => exact Nat.zero_le _
  | cons part parts ih =>
    rw [List.forall_mem_cons] at some
    have positive := List.length_pos_iff.mpr some.1
    cases parts with
    | nil => rwa [List.intercalate_singleton]
    | cons other parts =>
      have rest := ih some.2
      rw [List.intercalate_cons_cons, List.length_append, List.length_append]
      simp only [List.length_cons] at *
      omega

/-- The members of a line, with the brace behind them. -/
def memberChars (call : Call) : List Char :=
  let arguments := '[' :: ([','].intercalate (call.arguments.map Value.json) ++ [']'])
  Json.quote "time" ++ ':' :: ((toString call.time.toNat).toList ++ ',' ::
    (Json.quote "command_type" ++ ':' :: (Json.quote call.typeName ++ ',' ::
      (Json.quote "arguments" ++ ':' :: (arguments ++ ['\x7d'])))))

/-- A line is a brace and the members behind it. -/
theorem lineChars_eq (call : Call) : call.lineChars = '\x7b' :: call.memberChars := by
  have opening : "\x7b\"time\":".toList = '\x7b' :: (Json.quote "time" ++ [':']) := by
    decide +kernel
  have second : ",\"command_type\":".toList = ',' :: (Json.quote "command_type" ++ [':']) := by
    decide +kernel
  have third : ",\"arguments\":[".toList = ',' :: (Json.quote "arguments" ++ [':', '[']) := by
    decide +kernel
  have closing : "]\x7d".toList = [']', '\x7d'] := by decide +kernel
  unfold lineChars memberChars
  simp only [opening, second, third, closing, List.append_assoc, List.cons_append, List.nil_append]

/-- A line has more characters than there are steps of reading its arguments. -/
theorem length_arguments_lt (call : Call) : call.arguments.length + 4 < call.lineChars.length := by
  have parts : ∀ part ∈ call.arguments.map Value.json, part ≠ [] := by
    intro part member
    obtain ⟨value, -, rfl⟩ := List.mem_map.mp member
    obtain ⟨tree, reads, -⟩ := value.reads_json
    obtain ⟨first, rest, isText, -⟩ := reads.starts
    rw [isText]
    exact List.cons_ne_nil _ _
  have length := length_le_intercalate parts
  rw [List.length_map] at length
  rw [lineChars_eq, memberChars]
  simp only [List.length_cons, List.length_append]
  omega

/-- The line of a call is read as an object of its three members. -/
theorem ofChars_lineChars (call : Call) :
    ∃ time items,
      Json.Tree.ofChars? call.lineChars = some (.object [(Json.piecesOf "time", time),
        (Json.piecesOf "command_type", .text (Json.piecesOf call.typeName)),
        (Json.piecesOf "arguments", .array items)]) ∧
      readTime? time = some call.time ∧
      items.mapM Value.ofJson? = call.arguments.mapM Value.reread? ∧
      ((∀ value ∈ call.arguments, value.IsFinite) →
        items.mapM Value.nearest? = some call.arguments) := by
  obtain ⟨items, readItems, same, nearest⟩ := Value.reads_all call.arguments
  have below : call.time.toNat < UInt64.size := call.time.toNat_lt
  have least : Int64.minValue.toInt ≤ (call.time.toNat : Int) := by
    have minimum : Int64.minValue.toInt = -2 ^ 63 := rfl
    omega
  obtain ⟨time, readTime, -, worth⟩ := Json.reads_integer least (by exact_mod_cast below)
  refine ⟨.number time, items, ?_, by simp [readTime?, worth], same, nearest⟩
  have enough := call.length_arguments_lt
  obtain ⟨steps, isLength⟩ : ∃ steps, call.lineChars.length = steps + 4 :=
    ⟨call.lineChars.length - 4, by omega⟩
  have few : (call.arguments.map Value.json).length < steps := by
    rw [List.length_map]
    omega
  have array : Json.readTree? (steps + 1)
      ('[' :: ([','].intercalate (call.arguments.map Value.json) ++ [']']) ++ ['\x7d']) =
        some (.array items, ['\x7d']) := by
    rw [List.cons_append, List.append_assoc]
    exact Json.readTree_array readItems few ['\x7d']
  have arguments := Json.readMembers_last "arguments" array
  have members : Json.readMembers? (steps + 4) call.memberChars =
      some ([(Json.piecesOf "time", .number time),
        (Json.piecesOf "command_type", .text (Json.piecesOf call.typeName)),
        (Json.piecesOf "arguments", .array items)], []) := by
    rw [memberChars, Json.readMembers_member "time", Json.readMembers_member "command_type", arguments]
    · rfl
    · exact Json.readTree_quote call.typeName (steps + 1) _
    · exact Json.readTree_literal (readTime _ (by rintro _ ⟨⟩; decide)) (steps + 2)
  rw [Json.Tree.ofChars?, isLength, lineChars_eq, memberChars, Json.readTree_object "time" members]
  rfl

/-- A line is read as its call, with what has become of the arguments. -/
theorem ofLine_line (call : Call) :
    ofLine? call.line = (call.arguments.mapM Value.reread?).map ({ call with arguments := · }) := by
  obtain ⟨time, items, isTree, isTime, same, -⟩ := ofChars_lineChars call
  rw [ofLine?, line, String.toList_ofList, isTree, Option.bind_some, ← same]
  cases arguments : items.mapM Value.ofJson? <;>
    simp [ofJson?, ofParts?, member?, isTime, readText?, readArguments?, arguments]

/-- A list comes back exactly if each of its values does. -/
theorem mapM_eq_some_self_iff {α : Type} {f : α → Option α} {list : List α} :
    list.mapM f = some list ↔ ∀ value ∈ list, f value = some value := by
  induction list with
  | nil => simp
  | cons value rest ih =>
    rw [List.mapM_cons, List.forall_mem_cons, ← ih]
    cases f value with
    | none => simp
    | some other => cases rest.mapM f <;> simp

/-- A call comes back from its line exactly if all of its reals do. -/
theorem ofLine_line_eq_some_iff (call : Call) :
    ofLine? call.line = some call ↔
      ∀ real, .real real ∈ call.arguments → Json.reread? real = some real := by
  have reals : (∀ value ∈ call.arguments, value.reread? = some value) ↔
      ∀ real, .real real ∈ call.arguments → Json.reread? real = some real := by
    constructor
    · intro back real member
      simpa [Value.reread?] using back _ member
    · intro back value member
      cases value with
      | real number => simp [Value.reread?, back number member]
      | _ => rfl
  rw [← reals, ofLine_line, ← mapM_eq_some_self_iff]
  obtain ⟨time, typeName, arguments⟩ := call
  cases arguments.mapM Value.reread? <;> simp

/-- The lines of calls with finite reals tell them apart. -/
theorem eq_of_line_eq {call other : Call} (finite : ∀ value ∈ call.arguments, value.IsFinite)
    (otherFinite : ∀ value ∈ other.arguments, value.IsFinite) (same : call.line = other.line) :
    call = other := by
  obtain ⟨time, items, isTree, isTime, -, nearest⟩ := ofChars_lineChars call
  obtain ⟨otherTime, otherItems, isOtherTree, isOtherTime, -, otherNearest⟩ := ofChars_lineChars other
  have sameChars : call.lineChars = other.lineChars := String.ofList_injective same
  rw [sameChars, isOtherTree] at isTree
  simp only [Option.some.injEq, Json.Tree.object.injEq, List.cons.injEq, Prod.mk.injEq, true_and,
    Json.Tree.text.injEq, Json.Tree.array.injEq, and_true] at isTree
  obtain ⟨rfl, samePieces, rfl⟩ := isTree
  have sameTime : call.time = other.time := Option.some.inj (isTime.symm.trans isOtherTime)
  have sameName : call.typeName = other.typeName := by
    have sameText := congrArg Json.textOf? samePieces
    rw [Json.textOf_piecesOf, Json.textOf_piecesOf] at sameText
    exact (Option.some.inj sameText).symm
  have sameArguments : call.arguments = other.arguments :=
    Option.some.inj ((nearest finite).symm.trans (otherNearest otherFinite))
  obtain ⟨_, _, _⟩ := call
  obtain ⟨_, _, _⟩ := other
  simp_all

end Call

end TimedCommands
