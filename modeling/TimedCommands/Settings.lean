import TimedCommands.CommandTypes
import TimedCommands.Value
import TimedCommands.Yaml.Write

/-!
# Settings of a run

The settings name the command types that groups can hold and the steps that a run
covers. They are read from a document by what each setting wants, not by what a
scalar looks like: a text setting takes any scalar as it is spelled, while a flag or
a number must be a plain scalar, and tags do not matter. Unknown settings are ignored, a setting that is left
out has its standard value, and a command type that is named twice keeps its first
place and its last arity.
-/

namespace TimedCommands

open Yaml (Node Tree)

/-- The steps that a run covers, both ends included. -/
structure RunWindow where
  start : Time
  stop : Time
  deriving Repr, DecidableEq

/-- The window of a run that names none. -/
def RunWindow.standard : RunWindow := ⟨0, 1000⟩

/-- The settings of a run. -/
structure Settings where
  apiVersion : String
  kind : String
  /-- Whether command groups are available; if not, every directive is rejected. -/
  enabled : Bool
  /-- Whether real sequences with a negative bound are rejected. -/
  legacySequenceValidation : Bool
  commandTypes : CommandTypes
  run : RunWindow
  deriving Repr, DecidableEq

/-- Why a document has no settings. -/
inductive SettingsError where
  | unreadable
  | invalidApiVersion (found : String)
  | invalidKind (found : String)
  | invalidRunWindow (window : RunWindow)
  deriving Repr, DecidableEq

namespace Settings

/-- The version that settings must have. -/
def requiredApiVersion : String := "cadence/v1"

/-- The kind that settings must have. -/
def requiredKind : String := "EngineConfig"

/-- The settings of a run that has none. -/
def standard : Settings where
  apiVersion := requiredApiVersion
  kind := requiredKind
  enabled := true
  legacySequenceValidation := false
  commandTypes := CommandTypes.empty
  run := RunWindow.standard

/-- The text of a scalar, however it is written. -/
def readText? : Node → Option String
  | .scalar _ text _ => some text
  | _ => none

/-- A flag: a plain scalar that spells a boolean. -/
def readFlag? : Node → Option Bool
  | .scalar _ text true => Tree.boolean? text
  | _ => none

/-- A number below a bound: a plain scalar that spells it, with an optional plus sign. -/
def readNumber? (bound : Nat) : Node → Option Nat
  | .scalar _ text true => do
    let number ← Tree.unsigned? (Tree.dropPlus text.toList)
    if number < bound then some number else none
  | _ => none

/-- A time: a number that fits 64 bits. -/
def readTime? (node : Node) : Option Time := (readNumber? UInt64.size node).map UInt64.ofNat

/-- The entries of a mapping; one that is left out has none. -/
def readEntries? : Node → Option (List (Node × Node))
  | .mapping _ entries => some entries
  | .scalar _ "" true => some []
  | _ => none

/-- The entries of a mapping with their keys as texts. -/
def readFields? (node : Node) : Option (List (String × Node)) := do
  let entries ← readEntries? node
  entries.mapM fun (key, value) => do
    let name ← readText? key
    return (name, value)

/-- A field that may be left out but not be given twice. -/
def field? {α : Type} (fields : List (String × Node)) (name : String) (read? : Node → Option α)
    (standard : α) : Option α :=
  match fields.filter fun (other, _) => other = name with
  | [] => some standard
  | [(_, node)] => read? node
  | _ => none

/-- The command types of a mapping from names to arities. -/
def readCommandTypes? (node : Node) : Option CommandTypes := do
  let fields ← readFields? node
  let pairs ← fields.mapM fun (name, value) => do
    let arity ← readNumber? UInt32.size value
    return (name, arity)
  return CommandTypes.ofList pairs

/-- The run window of a mapping. -/
def readWindow? (node : Node) : Option RunWindow := do
  let fields ← readFields? node
  let start ← field? fields "start" readTime? RunWindow.standard.start
  let stop ← field? fields "end" readTime? RunWindow.standard.stop
  return ⟨start, stop⟩

/-- The settings of a document, unchecked. -/
def ofNode? (node : Node) : Option Settings := do
  let fields ← readFields? node
  let apiVersion ← field? fields "apiVersion" readText? standard.apiVersion
  let kind ← field? fields "kind" readText? standard.kind
  let enabled ← field? fields "enabled" readFlag? standard.enabled
  let legacy ← field? fields "legacySequenceValidation" readFlag? standard.legacySequenceValidation
  let commandTypes ← field? fields "commandTypes" readCommandTypes? standard.commandTypes
  let run ← field? fields "run" readWindow? standard.run
  return ⟨apiVersion, kind, enabled, legacy, commandTypes, run⟩

/-- Checks version, kind and window, in this order. -/
def check (settings : Settings) : Except SettingsError Settings :=
  if settings.apiVersion ≠ requiredApiVersion then
    .error (.invalidApiVersion settings.apiVersion)
  else if settings.kind ≠ requiredKind then .error (.invalidKind settings.kind)
  else if settings.run.stop < settings.run.start then .error (.invalidRunWindow settings.run)
  else .ok settings

/-- Reads settings from a document. -/
def read (source : String) : Except SettingsError Settings :=
  match Node.ofSource? source with
  | none => .error .unreadable
  | some document =>
    match ofNode? (document.getD Node.omitted) with
    | none => .error .unreadable
    | some settings => settings.check

/-- The settings as a tree, in the order in which they are declared. -/
def tree (settings : Settings) : Tree :=
  let time (time : Time) : Tree := .integer time.toNat
  .mapping [
    (.text "apiVersion", .text settings.apiVersion),
    (.text "kind", .text settings.kind),
    (.text "enabled", .boolean settings.enabled),
    (.text "legacySequenceValidation", .boolean settings.legacySequenceValidation),
    (.text "commandTypes", .mapping (settings.commandTypes.entries.map fun entry =>
      (.text entry.name, .integer entry.arity))),
    (.text "run", .mapping [
      (.text "start", time settings.run.start), (.text "end", time settings.run.stop)])]

/-- Writes settings as a document. -/
def write (settings : Settings) : String := Yaml.write settings.tree

end Settings

/-- The wording of an error. -/
def SettingsError.message : SettingsError → String
  | unreadable => "failed to parse config YAML: malformed document"
  | invalidApiVersion found =>
    s!"invalid apiVersion: expected '{Settings.requiredApiVersion}', got '{found}'"
  | invalidKind found => s!"invalid kind: expected '{Settings.requiredKind}', got '{found}'"
  | invalidRunWindow window =>
    s!"run window ends at {window.stop.toNat} before it starts at {window.start.toNat}"

end TimedCommands
