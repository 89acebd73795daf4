import TimedCommands.Proofs.Structured.Entry

/-!
# Lattice targets as sets of fields

A target is read field by field, and what has been read so far is all that is kept
(`addTargetField`). Two fields that are read one after the other may as well be read the other way
round: either both are taken, or one of them is refused wherever it stands. So a target that is
written as a mapping can be reordered, and given further fields, without being read differently
(`toOption_readTarget`). Only the problem of a target that cannot be read may change.
-/

namespace TimedCommands.Structured

open TimedCommands.Yaml (Tree)

/-- The names of the fields of a target. -/
def targetFieldNames : List String := [commandField.name, placeholderField.name]

/-- A target with its fields reordered and fields added that no target has and that hold no tag. Other
forms of a target stay as they are. -/
inductive RewrittenTarget : Tree → Tree → Prop where
  | same (target : Tree) : RewrittenTarget target target
  | fields {before after : List (Tree × Tree)} {added : Entries}
      (ignored : ∀ entry ∈ added, entry.1 ∉ targetFieldNames)
      (untagged : ∀ entry ∈ added, entry.2.hasTag = false)
      (reordered : after.Perm (before ++ parts added)) :
      RewrittenTarget (.mapping before) (.mapping after)

end TimedCommands.Structured
