import Mathlib.Data.List.Basic
import TimedCommands.Directive.Basic
import TimedCommands.Group.Basic

/-!
# Actions in range

What the numbers, lists and names of an action have to satisfy, apart from any group and
from anything that happened before. Validation and firing both check it, each in an order
and a way of its own; `Action.InRange` is what they have in common. An action in range has
everything that firing computes from its fields: indices, bounds, and one binding for
each axis of a lattice (`LatticeSpec.InRange.exists_axisBindings`), which aim at its targets in
order (`LatticeSpec.aims_of_axisBindings?`).
-/

namespace TimedCommands

/-- A raw integer is at least one and fits 32 bits, as indices, dimensions and repetition
counts must. -/
def IsCount (raw : Int64) : Prop := 1 ≤ raw.toInt ∧ raw.toInt ≤ maxCount

/-- A lattice has one entry per axis in each of its lists, and its integers are counts. -/
structure LatticeSpec.InRange (rank : Rank) (spec : LatticeSpec) : Prop where
  targets : spec.targets.length = rank.axes
  dims : spec.dims.length = rank.axes
  origin : spec.origin.length = rank.axes
  lengths : spec.lengths.length = rank.axes
  indices : ∀ target ∈ spec.targets, IsCount target.command
  dimensions : ∀ raw ∈ spec.dims, IsCount raw

/-- The fields of an action are in range. -/
def Action.InRange (arity : ArityLookup) : Action → Prop
  | createGroup => True
  | addCommand typeName placeholders =>
    arity typeName = some placeholders.length ∧ placeholders.Nodup
  | bindConstant target _ => IsCount target.command
  | bindSequence target initial increment =>
    IsCount target.command ∧ (Progression.ofValues? initial increment).isSome
  | bindArgument target source => IsCount target.command ∧ IsCount source.command
  | bindLattice rank spec => spec.InRange rank
  | toggleCommand command => IsCount command
  | toggleAll => True
  | switchCommand _ command => IsCount command
  | switchAll _ => True
  | executeSequence total period => IsCount total ∧ 0 ≤ period.toInt

/-- An index is accepted exactly if it is a count. -/
theorem isSome_ofRaw?_iff {raw : Int64} : (CommandIndex.ofRaw? raw).isSome ↔ IsCount raw := by
  rw [CommandIndex.ofRaw?, IsCount]
  split <;> simp_all

/-- A dimension is accepted exactly if it is a count. -/
theorem isSome_dimension?_iff {raw : Int64} :
    (LatticeSpec.dimension? raw).isSome ↔ IsCount raw := by
  rw [LatticeSpec.dimension?, IsCount]
  split <;> simp_all

/-- No name is repeated exactly if the names are distinct and none has been seen before. -/
theorem firstRepeated?_eq_none_iff {seen names : List String} :
    firstRepeated? seen names = none ↔ names.Nodup ∧ ∀ name ∈ names, name ∉ seen := by
  induction names generalizing seen with
  | nil => simp [firstRepeated?]
  | cons name rest ih =>
    rw [firstRepeated?, List.nodup_cons, List.forall_mem_cons]
    by_cases known : name ∈ seen
    · simp [known]
    · simp only [known, ↓reduceIte, ih, List.mem_cons, not_or]
      constructor
      · rintro ⟨distinct, apart⟩
        exact ⟨⟨fun repeated => (apart name repeated).1 rfl, distinct⟩, not_false,
          fun other member => (apart other member).2⟩
      · rintro ⟨⟨new, distinct⟩, -, apart⟩
        refine ⟨distinct, fun other member => ⟨?_, apart other member⟩⟩
        rintro rfl
        exact new member

/-- A list maps entirely if every entry does. -/
theorem exists_mapM {α β : Type} {convert : α → Option β} {entries : List α}
    (converts : ∀ entry ∈ entries, (convert entry).isSome) :
    ∃ converted, entries.mapM convert = some converted ∧ converted.length = entries.length := by
  induction entries with
  | nil => exact ⟨[], rfl, rfl⟩
  | cons entry rest ih =>
    obtain ⟨first, converted⟩ := Option.isSome_iff_exists.mp (converts entry (by simp))
    obtain ⟨later, convertedLater, sameLength⟩ := ih fun other member =>
      converts other (by simp [member])
    exact ⟨first :: later, by simp [converted, convertedLater], by simp [sameLength]⟩

/-- What converted entries are told by is told by the entries. -/
theorem map_eq_of_mapM {α β γ : Type} {convert : α → Option β} {before : α → γ} {after : β → γ}
    (agrees : ∀ entry converted, convert entry = some converted → before entry = after converted)
    {entries : List α} {results : List β} (converts : entries.mapM convert = some results) :
    entries.map before = results.map after := by
  induction entries generalizing results with
  | nil =>
    obtain rfl : [] = results := by simpa using converts
    rfl
  | cons entry rest ih =>
    obtain ⟨first, converted, later, convertedLater, rfl⟩ : ∃ first, convert entry = some first ∧
        ∃ later, rest.mapM convert = some later ∧ first :: later = results := by
      simpa [List.mapM_cons, Option.bind_eq_some_iff] using converts
    rw [List.map_cons, List.map_cons, agrees entry first converted, ih convertedLater]

namespace LatticeSpec

variable {rank : Rank} {spec : LatticeSpec}

/-- A description in range has its lattice. -/
theorem InRange.exists_lattice (inRange : spec.InRange rank) :
    ∃ lattice, spec.lattice? rank = some lattice := by
  obtain ⟨dims, converted, sameLength⟩ := exists_mapM fun raw member =>
    isSome_dimension?_iff.mpr (inRange.dimensions raw member)
  have dimsLength : dims.length = rank.axes := sameLength.trans inRange.dims
  have originLength := inRange.origin
  have lengthsLength := inRange.lengths
  cases rank with
  | two =>
    obtain ⟨nx, ny, rfl⟩ := List.length_eq_two.mp dimsLength
    obtain ⟨ox, oy, origin⟩ := List.length_eq_two.mp originLength
    obtain ⟨lx, ly, lengths⟩ := List.length_eq_two.mp lengthsLength
    exact ⟨.planar nx ny ox oy lx ly spec.packing, by simp [lattice?, converted, origin, lengths]⟩
  | three =>
    obtain ⟨nx, ny, nz, rfl⟩ := List.length_eq_three.mp dimsLength
    obtain ⟨ox, oy, oz, origin⟩ := List.length_eq_three.mp originLength
    obtain ⟨lx, ly, lz, lengths⟩ := List.length_eq_three.mp lengthsLength
    exact ⟨.spatial ⟨nx, ny, nz⟩ ⟨ox, oy, oz⟩ ⟨lx, ly, lz⟩ spec.packing,
      by simp [lattice?, converted, origin, lengths]⟩

/-- A description in range has a binding for each axis. -/
theorem InRange.exists_axisBindings (inRange : spec.InRange rank) :
    ∃ bindings, spec.axisBindings? rank = some bindings := by
  obtain ⟨lattice, described⟩ := inRange.exists_lattice
  have converts : ∀ entry ∈ spec.targets.zip Axis.all,
      ((CommandIndex.ofRaw? entry.1.command).bind fun command =>
        some (⟨⟨command, entry.1.placeholder⟩, ⟨lattice, entry.2⟩⟩ : AxisBinding)).isSome := by
    rintro ⟨target, axis⟩ member
    obtain ⟨index, denoted⟩ := Option.isSome_iff_exists.mp
      (isSome_ofRaw?_iff.mpr (inRange.indices target (List.of_mem_zip member).1))
    simp [denoted]
  obtain ⟨bindings, converted, -⟩ := exists_mapM converts
  refine ⟨bindings, ?_⟩
  rw [axisBindings?, described]
  simpa [inRange.targets] using converted

/-- The bindings of a lattice aim at its targets and carry the axes that its lists describe, both in
order. -/
structure Aims (spec : LatticeSpec) (rank : Rank) (bindings : List AxisBinding) : Prop where
  slots :
    spec.targets.map (fun target => (CommandIndex.ofRaw? target.command, target.placeholder)) =
      bindings.map fun binding => (some binding.slot.command, binding.slot.placeholder)
  axes : bindings.map (·.coordinate.axis) = Axis.all.take rank.axes
  lattice : ∀ binding ∈ bindings, spec.lattice? rank = some binding.coordinate.lattice

/-- The bindings of a description are for its targets, axis by axis. -/
theorem aims_of_axisBindings? {bindings : List AxisBinding}
    (found : spec.axisBindings? rank = some bindings) : spec.Aims rank bindings := by
  rw [axisBindings?] at found
  obtain ⟨lattice, described, found⟩ := Option.bind_eq_some_iff.mp found
  split at found
  case isTrue => cases found
  case isFalse fits =>
    have sameLength : spec.targets.length = (Axis.all.take rank.axes).length := by
      rw [Classical.not_not.mp fits]
      cases rank <;> rfl
    have paired : spec.targets.zip Axis.all = spec.targets.zip (Axis.all.take rank.axes) := by
      rw [List.zip_eq_zip_take_min, Classical.not_not.mp fits, List.take_of_length_le]
      · cases rank <;> rfl
      · rw [Classical.not_not.mp fits]
        cases rank <;> decide
    rw [paired] at found
    have told : ∀ (entry : RawSlot × Axis) (binding : AxisBinding),
        (CommandIndex.ofRaw? entry.1.command).bind (fun command =>
          some ⟨⟨command, entry.1.placeholder⟩, ⟨lattice, entry.2⟩⟩) = some binding →
        (CommandIndex.ofRaw? entry.1.command, entry.1.placeholder) =
            (some binding.slot.command, binding.slot.placeholder) ∧
          entry.2 = binding.coordinate.axis ∧ lattice = binding.coordinate.lattice := by
      intro entry binding converted
      obtain ⟨command, denoted, ⟨⟩⟩ := Option.bind_eq_some_iff.mp converted
      exact ⟨congrArg (·, entry.1.placeholder) denoted, rfl, rfl⟩
    refine ⟨?_, ?_, ?_⟩
    · rw [← List.map_fst_zip (Nat.le_of_eq sameLength), List.map_map]
      exact map_eq_of_mapM (fun entry binding converted => (told entry binding converted).1) found
    · rw [← List.map_snd_zip (Nat.le_of_eq sameLength.symm)]
      exact (map_eq_of_mapM (fun entry binding converted => (told entry binding converted).2.1)
        found).symm
    · intro binding member
      have same : (spec.targets.zip (Axis.all.take rank.axes)).map (fun _ => lattice) =
          bindings.map (·.coordinate.lattice) :=
        map_eq_of_mapM (fun entry binding converted => (told entry binding converted).2.2) found
      have carried : binding.coordinate.lattice ∈ bindings.map (·.coordinate.lattice) :=
        List.mem_map_of_mem member
      rw [← same] at carried
      obtain ⟨-, -, rfl⟩ := List.mem_map.mp carried
      exact described

end LatticeSpec

end TimedCommands
