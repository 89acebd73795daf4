/-!
# Command types

A group can hold only commands whose number of arguments is known beforehand. All
that reading, validation and execution ask of the set of command types is that
number, so they take an `ArityLookup`; `CommandTypes` is the table that a run is
configured with. Registering a name again replaces its arity and keeps its place.
-/

namespace TimedCommands

/-- The number of arguments of each command type that a group can hold. -/
abbrev ArityLookup := String → Option Nat

/-- A command type and the number of its arguments. -/
structure CommandType where
  name : String
  arity : Nat
  deriving Repr, DecidableEq

/-- The registered command types, in registration order. -/
structure CommandTypes where
  entries : List CommandType
  deriving Repr, DecidableEq

namespace CommandTypes

/-- No command type is registered. -/
def empty : CommandTypes := ⟨[]⟩

/-- Looks a type up by name. -/
def find? (types : CommandTypes) (name : String) : Option CommandType :=
  types.entries.find? fun entry => entry.name = name

/-- Adds a type, or replaces the arity of a registered one in its place. -/
def register (types : CommandTypes) (name : String) (arity : Nat) : CommandTypes :=
  if (types.find? name).isSome then
    ⟨types.entries.map fun entry => if entry.name = name then ⟨name, arity⟩ else entry⟩
  else ⟨types.entries ++ [⟨name, arity⟩]⟩

/-- Registers types one after the other. -/
def ofList (pairs : List (String × Nat)) : CommandTypes :=
  pairs.foldl (fun types (name, arity) => types.register name arity) empty

/-- The look-up that the table answers. -/
def arity (types : CommandTypes) : ArityLookup := fun name => (types.find? name).map (·.arity)

/-- The registered names, in registration order. -/
def names (types : CommandTypes) : List String := types.entries.map (·.name)

end CommandTypes

end TimedCommands
