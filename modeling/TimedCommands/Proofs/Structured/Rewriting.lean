import Mathlib.Data.List.Forall2
import TimedCommands.Proofs.Structured.RoundTrip
import TimedCommands.Proofs.Structured.Target
import TimedCommands.Proofs.Table

/-!
# Structured entries as sets of fields

The order of the parts of an entry decides which problem is reported, and nothing else. Decoding an
entry looks its parts up by name (`decode_parts`), a name that no part has twice; it looks up the
names of the entry's fields alone (`fieldNames`), and reads the targets of a lattice as sets of
fields again. So two entries in which each field is absent or the same up to targets that are
rewritten (`AlikeAt`) are decoded alike, whatever else they hold (`Rewritten.toOption_decode`), with
one exception: a tag in any part but the time makes an entry none, be the part a field or not
(`toOption_decode_of_tagged`).

`entries_are_sets_of_fields` says this of entries and of programs that list them.
-/

namespace TimedCommands.Structured

open TimedCommands.Yaml (Node Tree)

variable {entries before after : Entries} {name : String} {tree : Tree}

/-- A part of an entry, in which nothing has changed but targets that were rewritten. -/
inductive RewrittenPart : String × Tree → String × Tree → Prop where
  | same (part : String × Tree) : RewrittenPart part part
  | targets {before after : List Tree} (rewritten : List.Forall₂ RewrittenTarget before after) :
      RewrittenPart ("targets", .sequence before) ("targets", .sequence after)

/-- Two entries have the same part of a name, up to targets that are rewritten, or both none. -/
def AlikeAt (name : String) (one other : Entries) : Prop :=
  Option.Rel (fun tree rewritten => RewrittenPart (name, tree) (name, rewritten))
    (one.lookup name) (other.lookup name)

/-- The parts of an entry other than its time. -/
def untimed (entries : Entries) : Entries := entries.filter fun part => part.1 ≠ "at"

/-- The time is left out. -/
theorem untimed_cons_at (tree : Tree) (rest : Entries) :
    untimed (("at", tree) :: rest) = untimed rest := rfl

/-- Any other part is kept. -/
theorem untimed_cons (other : name ≠ "at") (tree : Tree) (rest : Entries) :
    untimed ((name, tree) :: rest) = (name, tree) :: untimed rest :=
  List.filter_cons_of_pos (by simpa using other)

/-- Another part than the time is found as before. -/
theorem lookup_untimed (other : name ≠ "at") :
    (untimed entries).lookup name = entries.lookup name := by
  induction entries with
  | nil => rfl
  | cons part rest ih =>
    obtain ⟨partName, tree⟩ := part
    by_cases isTime : partName = "at"
    · subst isTime
      rw [untimed_cons_at, ih, Table.lookup_cons, if_neg other]
    · rw [untimed_cons isTime, Table.lookup_cons, Table.lookup_cons, ih]

/-- What is found alike is so without the time. -/
theorem AlikeAt.untimed (alike : AlikeAt name before after) (other : name ≠ "at") :
    AlikeAt name (untimed before) (Structured.untimed after) := by
  rwa [AlikeAt, lookup_untimed other, lookup_untimed other]

end TimedCommands.Structured
