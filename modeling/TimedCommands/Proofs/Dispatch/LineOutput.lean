import TimedCommands.Dispatch.LineOutput
import TimedCommands.Proofs.Dispatch.Line
import TimedCommands.Script.Reading

/-!
# The lines of a run

A dispatcher with room for every line runs every call and writes its line, which has no newline in
it. So the text that is written falls into the lines of the calls, in their order, and each is read
back on its own (`lines_of_calls`). What is not read back, or not as it was, is a real: every one that
is not finite, and some with more digits than are rounded at once (`lines_lose_reals`).
-/

namespace TimedCommands

/-! Lines are lines. -/

/-- No newline is among digits. -/
theorem newline_notMem_of_digits {digits : List Char} (areDigits : ∀ char ∈ digits, char.isDigit = true) :
    '\n' ∉ digits :=
  fun member => absurd (areDigits '\n' member) (by decide)

/-- A sign is no newline. -/
theorem newline_notMem_minusSign (negative : Bool) : '\n' ∉ minusSign negative := by
  cases negative <;> decide

/-- No newline is in the text of a number. -/
theorem Numeral.newline_notMem_signedChars (plus : Bool) (numeral : Numeral) :
    '\n' ∉ numeral.signedChars plus := by
  have whole := newline_notMem_of_digits numeral.whole_digits
  have fraction := newline_notMem_of_digits numeral.fraction_digits
  have power := newline_notMem_of_digits numeral.power_digits
  cases plus <;> cases isNegative : numeral.negativePower <;>
    by_cases noFraction : numeral.fraction = [] <;> by_cases noPower : numeral.power = [] <;>
      simp [signedChars, fractionChars, signedPower, isNegative, noFraction, noPower, whole, fraction, power]

/-- No newline is in the written form of a value: in a text, it is escaped. -/
theorem Value.newline_notMem_json (value : Value) : '\n' ∉ value.json := by
  cases value with
  | integer number =>
    rw [json, toList_toString]
    have digits := newline_notMem_of_digits (RealFormat.digits_toDigits number.toInt.natAbs)
    simp [newline_notMem_minusSign, digits]
  | real number =>
    rw [json]
    cases finite : number.isFinite with
    | true =>
      obtain ⟨numeral, -, -, isText, -⟩ := RealFormat.writes_real Json.realFormat finite
      simp [isText, newline_notMem_minusSign, Numeral.newline_notMem_signedChars]
    | false =>
      rw [Json.write_of_not_finite finite]
      decide
  | text content => exact Json.newline_notMem_quote content

/-- Parts without a newline have none with commas between them. -/
theorem newline_notMem_intercalate {parts : List (List Char)} (noNewline : ∀ part ∈ parts, '\n' ∉ part) :
    '\n' ∉ [','].intercalate parts := by
  induction parts with
  | nil => simp
  | cons part parts ih =>
    rw [List.forall_mem_cons] at noNewline
    cases parts with
    | nil => simpa using noNewline.1
    | cons other parts =>
      rw [List.intercalate_cons_cons]
      simpa [noNewline.1] using ih noNewline.2

/-- The line of a call is one line. -/
theorem Call.newline_notMem_line (call : Call) : '\n' ∉ call.line.toList := by
  have time := newline_notMem_of_digits (RealFormat.digits_toDigits call.time.toNat)
  have arguments : '\n' ∉ [','].intercalate (call.arguments.map Value.json) :=
    newline_notMem_intercalate (List.forall_mem_map.mpr fun value _ => value.newline_notMem_json)
  rw [line, String.toList_ofList, lineChars_eq, memberChars]
  simp [Json.newline_notMem_quote, time, arguments]

namespace LineOutput

/-- Executes calls one after another. -/
def executeAll (calls : List Call) (output : LineOutput) : LineOutput :=
  calls.foldl (fun output call => (execute call output).next) output

/-- With room for all, every call runs and leaves its line. -/
theorem executeAll_unlimited (calls : List Call) (lines : Array String) (dispatched : Nat) :
    executeAll calls ⟨some ⟨lines, none, true⟩, dispatched⟩ =
      ⟨some ⟨lines ++ (calls.map Call.line).toArray, none, true⟩, dispatched + calls.length⟩ := by
  induction calls generalizing lines dispatched with
  | nil => simp [executeAll]
  | cons call calls ih =>
    have next : (execute call ⟨some ⟨lines, none, true⟩, dispatched⟩).next =
        ⟨some ⟨lines.push call.line, none, true⟩, dispatched + 1⟩ := rfl
    rw [executeAll, List.foldl_cons, next]
    change executeAll calls _ = _
    rw [ih]
    simp [Nat.add_assoc, Nat.add_comm 1]

/-- The text of a sink is its lines, a newline behind each. -/
theorem toList_text (sink : LineSink) :
    sink.text.toList = sink.lines.toList.flatMap fun line => line.toList ++ ['\n'] := by
  have push (lines : List String) (text : String) :
      (lines.foldl (fun text line => text ++ line ++ "\n") text).toList =
        text.toList ++ lines.flatMap fun line => line.toList ++ ['\n'] := by
    induction lines generalizing text with
    | nil => simp
    | cons line lines ih => simp [ih]
  rw [LineSink.text, ← Array.foldl_toList, push]
  rfl

/-- Lines are found again by the newlines behind them. -/
theorem splitOn_lines {lines : List (List Char)} (noNewline : ∀ line ∈ lines, '\n' ∉ line) :
    (lines.flatMap (· ++ ['\n'])).splitOn '\n' = lines ++ [[]] := by
  have joined : lines.flatMap (· ++ ['\n']) = ['\n'].intercalate (lines ++ [[]]) := by
    induction lines with
    | nil => rfl
    | cons line lines ih =>
      rw [List.forall_mem_cons] at noNewline
      rw [List.flatMap_cons, ih noNewline.2]
      cases lines <;> simp [List.intercalate_cons_cons]
  rw [joined, List.splitOn_intercalate]
  · simpa [or_imp, forall_and] using noNewline
  · simp

/-- Calls that are executed one after another with room for all of their lines all run, and what is
written is a line for each of them, in order. A line is read as its call, with every integer and text
as it was and every real as it comes back from its own digits; so the call comes back exactly if its
reals do. They have to be finite for that, and they do come back if their digits are few. Calls with
finite reals never share a line. -/
theorem lines_of_calls (calls : List Call) :
    let output := executeAll calls (begin (some .unlimited))
    output.dispatched = calls.length ∧
      (∃ text, output.text? = some text ∧
        text = String.join (calls.map fun call => call.line ++ "\n") ∧
        text.toList.splitOn '\n' = calls.map (fun call => call.line.toList) ++ [[]]) ∧
      (∀ call : Call,
        Call.ofLine? call.line =
          (call.arguments.mapM Value.reread?).map ({ call with arguments := · }) ∧
        (Call.ofLine? call.line = some call ↔
          ∀ real, .real real ∈ call.arguments → Json.reread? real = some real)) ∧
      (∀ real, Json.reread? real = some real → real.isFinite = true) ∧
      (∀ real, Json.IsShort real → Json.reread? real = some real) ∧
      ∀ call other : Call, (∀ value ∈ call.arguments, value.IsFinite) →
        (∀ value ∈ other.arguments, value.IsFinite) → call.line = other.line → call = other := by
  intro output
  have isOutput : output = ⟨some ⟨(calls.map Call.line).toArray, none, true⟩, calls.length⟩ :=
    (executeAll_unlimited calls #[] 0).trans (by simp)
  rw [isOutput]
  refine ⟨rfl, ⟨_, rfl, ?_, ?_⟩, fun call => ⟨call.ofLine_line, call.ofLine_line_eq_some_iff⟩,
    fun real back => ?_, fun _ => Json.reread_of_isShort, fun _ _ => Call.eq_of_line_eq⟩
  · rw [← String.toList_inj, toList_text, String.toList_join]
    simp [List.flatMap_map]
  · rw [toList_text, ← splitOn_lines]
    · simp [List.flatMap_map]
    · exact List.forall_mem_map.mpr fun call _ => call.newline_notMem_line
  · by_contra notFinite
    rw [Json.reread_of_not_finite (Bool.not_eq_true _ ▸ notFinite)] at back
    cases back

/-- Two calls with different arguments that have one line, which is not read back, and a call with a
finite real that comes back with another. -/
theorem lines_lose_reals :
    let call (literal : String) : Call :=
      ⟨0, "Single", ((Script.literalReal? literal).map Value.real).toList⟩
    call "1e999" ≠ call "-1e999" ∧ (call "1e999").line = (call "-1e999").line ∧
      Call.ofLine? (call "1e999").line = none ∧
      Call.ofLine? (call "90.28571428571429").line = some (call "90.28571428571428") ∧
      call "90.28571428571428" ≠ call "90.28571428571429" := by
  decide +kernel

end LineOutput

end TimedCommands
