import TimedCommands.Group.Basic

/-!
# The group registry

All groups of a run, in creation order. A group is found under its own name, so the
registry needs no keys beside the groups. Groups are never removed or renamed.
-/

namespace TimedCommands

/-- The groups of a run, in creation order. -/
structure Registry where
  groups : List Group
  deriving Repr, DecidableEq

namespace Registry

/-- No group exists. -/
def empty : Registry := ⟨[]⟩

/-- Finds a group by name. -/
def find? (registry : Registry) (name : GroupName) : Option Group :=
  registry.groups.find? fun group => group.name = name

/-- Whether a group exists. -/
def contains (registry : Registry) (name : GroupName) : Bool := (registry.find? name).isSome

/-- The group of a name. -/
def get (registry : Registry) (name : GroupName) : Except Fault Group :=
  match registry.find? name with
  | none => .error (.groupNotFound name)
  | some group => .ok group

/-- Adds an empty group, unless the name was ever used. -/
def create (registry : Registry) (name : GroupName) : Except Fault Registry :=
  if registry.contains name then .error (.duplicateGroup name)
  else .ok ⟨registry.groups ++ [Group.empty name]⟩

/-- Puts a changed group in the place of the one of its name. -/
def replace (registry : Registry) (group : Group) : Registry :=
  ⟨registry.groups.map fun other => if other.name = group.name then group else other⟩

/-- The group names, in creation order. -/
def names (registry : Registry) : List GroupName := registry.groups.map (·.name)

end Registry

end TimedCommands
