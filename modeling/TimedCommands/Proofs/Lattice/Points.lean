import TimedCommands.Proofs.Group.Evaluation
import TimedCommands.Proofs.Registry.History
import TimedCommands.Proofs.Schedule.InPlace

/-!
# Points for slots

A lattice directive aims its axes at slots, in axis order. Afterwards each of these slots comes to
one coordinate of a point, a new point with each repetition: the coordinate along the last of the
axes aimed at the slot (`Aims.aimedLast_of_find?`, `bound_lattice_gives_points`). No other slot is
touched. The lattice is the one that the lists of the directive describe (`Describes`), so a
coordinate is told from their entries for its axis and from the cell alone.
-/

namespace TimedCommands

/-- Whether triangular packing shifts an axis at a cell. Odd rows are shifted along x, and odd
layers along y. -/
def Axis.IsShifted : Axis → Triple Nat → Prop
  | x, cell => cell.y % 2 = 1
  | y, cell => cell.z % 2 = 1
  | z, _ => False

instance (axis : Axis) (cell : Triple Nat) : Decidable (axis.IsShifted cell) :=
  match axis with
  | .x => inferInstanceAs (Decidable (cell.y % 2 = 1))
  | .y => inferInstanceAs (Decidable (cell.z % 2 = 1))
  | .z => isFalse id

/-- An axis stands at its position among all of them. -/
theorem Axis.position_of_getElem?_all {position : Nat} {axis : Axis}
    (found : all[position]? = some axis) : axis.position = position := by
  obtain ⟨inAll, rfl⟩ := List.getElem?_eq_some_iff.mp found
  match position, inAll with
  | 0, _ | 1, _ | 2, _ => rfl

/-- The coordinate of a point is that of its cell's corner, and half a spacing more where it is
shifted. -/
theorem Lattice.get_point (lattice : Lattice) (axis : Axis) (iteration : Nat) :
    (lattice.point iteration).get axis =
      if lattice.packing = .triangular ∧ axis.IsShifted (lattice.cell iteration) then
        lattice.corner (lattice.cell iteration) axis + 0.5 * lattice.spacing axis
      else lattice.corner (lattice.cell iteration) axis := by
  cases axis with
  | x => exact if_congr (by simp [shiftsRow, Axis.IsShifted]) rfl rfl
  | y => exact if_congr (by simp [shiftsLayer, Axis.IsShifted]) rfl rfl
  | z => exact (if_neg fun shifted => shifted.2).symm

/-- What is found from the end of a list is followed by nothing else that is looked for. -/
theorem exists_last_of_find?_reverse {α : Type} {wanted : α → Bool} {entries : List α} {last : α}
    (found : entries.reverse.find? wanted = some last) :
    ∃ position : Nat, entries[position]? = some last ∧ wanted last = true ∧
      ∀ (later : Nat) (entry : α), position < later → entries[later]? = some entry →
        wanted entry = false := by
  obtain ⟨isWanted, after, before, reversed, others⟩ := List.find?_eq_some_iff_append.mp found
  obtain rfl : entries = before.reverse ++ last :: after.reverse := by
    simpa using congrArg List.reverse reversed
  refine ⟨before.length, by simp, isWanted, fun later entry behind isEntry => ?_⟩
  obtain ⟨offset, rfl⟩ := Nat.exists_eq_add_of_lt behind
  have inAfter : entry ∈ after.reverse := by
    have inRest : (last :: after.reverse)[offset + 1]? = some entry := by
      rw [← isEntry, List.getElem?_append_right (by simp; omega), List.length_reverse]
      congr 1
      omega
    exact List.mem_of_getElem? inRest
  simpa using others entry (List.mem_reverse.mp inAfter)

/-- A target names a slot. -/
def RawSlot.Names (target : RawSlot) (slot : SlotName) : Prop :=
  CommandIndex.ofRaw? target.command = some slot.command ∧ target.placeholder = slot.placeholder

namespace LatticeSpec

variable {spec : LatticeSpec} {rank : Rank} {lattice : Lattice} {slot : SlotName}
  {bindings : List AxisBinding}

/-- The lattice of a rank that lists describe, one entry for each of its axes. -/
inductive Describes (spec : LatticeSpec) : Rank → Lattice → Prop where
  | planar (nx ny : Int64) (ox oy lx ly : Float) (dims : spec.dims = [nx, ny])
      (origin : spec.origin = [ox, oy]) (lengths : spec.lengths = [lx, ly])
      (counts : ∀ dim ∈ spec.dims, IsCount dim) :
      Describes spec .two (.planar nx.toInt.toNat ny.toInt.toNat ox oy lx ly spec.packing)
  | spatial (nx ny nz : Int64) (ox oy oz lx ly lz : Float) (dims : spec.dims = [nx, ny, nz])
      (origin : spec.origin = [ox, oy, oz]) (lengths : spec.lengths = [lx, ly, lz])
      (counts : ∀ dim ∈ spec.dims, IsCount dim) :
      Describes spec .three (.spatial ⟨nx.toInt.toNat, ny.toInt.toNat, nz.toInt.toNat⟩
        ⟨ox, oy, oz⟩ ⟨lx, ly, lz⟩ spec.packing)

/-- The last of the targets that name a slot stands at a position. -/
structure AimedLast (spec : LatticeSpec) (slot : SlotName) (position : Nat) : Prop where
  aimed : ∃ target, spec.targets[position]? = some target ∧ target.Names slot
  last : ∀ later target, position < later → spec.targets[later]? = some target →
    ¬ target.Names slot

/-- A dimension is accepted exactly if it is a count. -/
theorem dimension?_eq_some_iff {raw : Int64} {dim : Nat} :
    dimension? raw = some dim ↔ IsCount raw ∧ raw.toInt.toNat = dim := by
  simp [dimension?, IsCount]

/-- A lattice that is made of a description is described by it. -/
theorem describes_of_lattice? (described : spec.lattice? rank = some lattice) :
    spec.Describes rank lattice := by
  rw [lattice?] at described
  obtain ⟨dims, converted, described⟩ := Option.bind_eq_some_iff.mp described
  have asDims : spec.dims.map dimension? = dims.map some :=
    map_eq_of_mapM (fun _ _ same => same) converted
  have counts : ∀ raw ∈ spec.dims, IsCount raw := by
    intro raw member
    have inDims := List.mem_map_of_mem (f := dimension?) member
    rw [asDims] at inDims
    obtain ⟨dim, -, isDim⟩ := List.mem_map.mp inDims
    exact (dimension?_eq_some_iff.mp isDim.symm).1
  split at described
  case h_1 =>
    simp only [List.map_cons, List.map_nil, List.map_eq_cons_iff, List.map_eq_nil_iff,
      dimension?_eq_some_iff] at asDims
    obtain ⟨nx, _, isDims, ⟨-, rfl⟩, ny, _, rfl, ⟨-, rfl⟩, rfl⟩ := asDims
    cases described
    exact .planar nx ny _ _ _ _ isDims ‹_› ‹_› counts
  case h_2 =>
    simp only [List.map_cons, List.map_nil, List.map_eq_cons_iff, List.map_eq_nil_iff,
      dimension?_eq_some_iff] at asDims
    obtain ⟨nx, _, isDims, ⟨-, rfl⟩, ny, _, rfl, ⟨-, rfl⟩, nz, _, rfl, ⟨-, rfl⟩, rfl⟩ := asDims
    cases described
    exact .spatial nx ny nz _ _ _ _ _ _ isDims ‹_› ‹_› counts
  case h_3 => cases described

/-- A lattice has the rank of its description. -/
theorem Describes.rank_eq (describes : spec.Describes rank lattice) : lattice.rank = rank := by
  cases describes <;> rfl

/-- A lattice has the packing of its description. -/
theorem Describes.packing_eq (describes : spec.Describes rank lattice) :
    lattice.packing = spec.packing := by
  cases describes <;> rfl

/-- A count is not raised to one. -/
theorem toNat_of_isCount {dim : Int64} (isCount : IsCount dim) :
    max dim.toInt.toNat 1 = dim.toInt.toNat := by
  have positive := isCount.1
  omega

/-- Along an axis, a lattice is as the entries for that axis say. -/
theorem Describes.along (describes : spec.Describes rank lattice) {axis : Axis}
    (isAxis : lattice.hasAxis axis) :
    ∃ dim : Int64, spec.dims[axis.position]? = some dim ∧
      lattice.dims.get axis = dim.toInt.toNat ∧
      spec.origin[axis.position]? = some (lattice.origin.get axis) ∧
      spec.lengths[axis.position]? = some (lattice.lengths.get axis) := by
  cases describes with
  | planar nx ny ox oy lx ly dims origin lengths counts =>
    rw [dims] at counts ⊢
    rw [origin, lengths]
    cases axis with
    | x => exact ⟨nx, rfl, toNat_of_isCount (counts nx (by simp)), rfl, rfl⟩
    | y => exact ⟨ny, rfl, toNat_of_isCount (counts ny (by simp)), rfl, rfl⟩
    | z => exact absurd isAxis Bool.false_ne_true
  | spatial nx ny nz ox oy oz lx ly lz dims origin lengths counts =>
    rw [dims] at counts ⊢
    rw [origin, lengths]
    cases axis with
    | x => exact ⟨nx, rfl, toNat_of_isCount (counts nx (by simp)), rfl, rfl⟩
    | y => exact ⟨ny, rfl, toNat_of_isCount (counts ny (by simp)), rfl, rfl⟩
    | z => exact ⟨nz, rfl, toNat_of_isCount (counts nz (by simp)), rfl, rfl⟩

namespace Aims

variable {position : Nat} {target : RawSlot} {binding last : AxisBinding}

/-- There are as many bindings as targets. -/
theorem length_bindings (aims : spec.Aims rank bindings) :
    spec.targets.length = bindings.length := by
  simpa using congrArg List.length aims.slots

/-- All bindings carry one lattice. -/
theorem exists_lattice (aims : spec.Aims rank bindings) :
    ∃ lattice, spec.Describes rank lattice ∧
      ∀ binding ∈ bindings, binding.coordinate.lattice = lattice := by
  have axes := aims.axes
  cases bindings with
  | nil => cases rank <;> cases axes
  | cons first rest =>
    have described := aims.lattice first List.mem_cons_self
    refine ⟨first.coordinate.lattice, describes_of_lattice? described, fun binding member => ?_⟩
    exact Option.some.inj ((aims.lattice binding member).symm.trans described)

/-- Each target has its binding. -/
theorem exists_binding (aims : spec.Aims rank bindings)
    (isTarget : spec.targets[position]? = some target) :
    ∃ binding, bindings[position]? = some binding := by
  obtain ⟨inTargets, -⟩ := List.getElem?_eq_some_iff.mp isTarget
  exact ⟨_, List.getElem?_eq_getElem (aims.length_bindings ▸ inTargets)⟩

/-- Each binding has its target. -/
theorem exists_target (aims : spec.Aims rank bindings)
    (isBinding : bindings[position]? = some binding) :
    ∃ target, spec.targets[position]? = some target := by
  obtain ⟨inBindings, -⟩ := List.getElem?_eq_some_iff.mp isBinding
  exact ⟨_, List.getElem?_eq_getElem (aims.length_bindings ▸ inBindings)⟩

/-- A binding is for the slot that the target at its position names. -/
theorem names_iff (aims : spec.Aims rank bindings) (isTarget : spec.targets[position]? = some target)
    (isBinding : bindings[position]? = some binding) : target.Names slot ↔ binding.slot = slot := by
  have same := congrArg (·[position]?) aims.slots
  simp only [List.getElem?_map, isTarget, isBinding, Option.map_some, Option.some.injEq,
    Prod.mk.injEq] at same
  rw [RawSlot.Names, same.1, same.2, Option.some.injEq, ← SlotName.mk.injEq]

/-- A binding carries the axis of its position. -/
theorem position_of_getElem? (aims : spec.Aims rank bindings)
    (isBinding : bindings[position]? = some binding) :
    binding.coordinate.axis.position = position := by
  have isAxis := congrArg (·[position]?) aims.axes
  simp only [List.getElem?_map, isBinding, Option.map_some, List.getElem?_take] at isAxis
  split at isAxis
  · exact Axis.position_of_getElem?_all isAxis.symm
  · cases isAxis

/-- A binding carries an axis of the rank. -/
theorem hasAxis (aims : spec.Aims rank bindings) (member : binding ∈ bindings) :
    binding.coordinate.axis.position < rank.axes := by
  have ofRank : ∀ axis ∈ Axis.all.take rank.axes, axis.position < rank.axes := by
    cases rank <;> decide
  exact ofRank _ (aims.axes ▸ List.mem_map_of_mem member)

/-- The last of the bindings for a slot is at the position of the last target that names it. -/
theorem aimedLast_of_find? (aims : spec.Aims rank bindings)
    (found : bindings.reverse.find? (·.slot = slot) = some last) :
    spec.AimedLast slot last.coordinate.axis.position := by
  obtain ⟨position, isLast, isSlot, others⟩ := exists_last_of_find?_reverse found
  rw [aims.position_of_getElem? isLast]
  constructor
  case aimed =>
    obtain ⟨target, isTarget⟩ := aims.exists_target isLast
    exact ⟨target, isTarget, (aims.names_iff isTarget isLast).mpr (of_decide_eq_true isSlot)⟩
  case last =>
    intro later target behind isTarget names
    obtain ⟨binding, isBinding⟩ := aims.exists_binding isTarget
    exact of_decide_eq_false (others later binding behind isBinding)
      ((aims.names_iff isTarget isBinding).mp names)

/-- A slot for which no binding is found is named by no target. -/
theorem not_names_of_find? (aims : spec.Aims rank bindings)
    (none : bindings.reverse.find? (·.slot = slot) = none) :
    ∀ target ∈ spec.targets, ¬ target.Names slot := by
  intro target member names
  obtain ⟨position, isTarget⟩ := List.mem_iff_getElem?.mp member
  obtain ⟨binding, isBinding⟩ := aims.exists_binding isTarget
  have isSlot := (aims.names_iff isTarget isBinding).mp names
  have inReverse := List.mem_reverse.mpr (List.mem_of_getElem? isBinding)
  exact List.find?_eq_none.mp none binding inReverse (decide_eq_true isSlot)

end Aims

end LatticeSpec

namespace Registry

variable {registry : Registry} {name : GroupName} {group bound : Group}

/-- The binding of a slot of a group: `none` if there is no such group or slot, `some none` if the
slot is not bound. -/
def binding? (registry : Registry) (name : GroupName) (slot : SlotName) :
    Option (Option Binding) := do
  let group ← registry.find? name
  group.binding? slot

/-- The value of a slot of a group at a repetition. -/
def evaluate (registry : Registry) (name : GroupName) (slot : SlotName) (iteration : Nat) :
    Except Fault Value := do
  let group ← registry.get name
  group.evaluate slot iteration

/-- What binds a slot in the place of a group is what binds it in the group put there. -/
theorem binding?_replace (found : registry.get name = .ok group) (named : bound.name = name)
    (other : GroupName) (slot : SlotName) :
    (registry.replace bound).binding? other slot =
      if other = name then bound.binding? slot else registry.binding? other slot := by
  by_cases here : other = name
  · have replaced := get_eq_ok_iff.mp (get_replace found named)
    rw [binding?, here, replaced, if_pos rfl]
    rfl
  · rw [binding?, binding?, find?_replace, if_neg here]
    cases present : registry.find? other with
    | none => rfl
    | some there =>
      have apart : there.name ≠ bound.name := by
        rw [name_of_get (get_eq_ok_iff.mpr present), named]
        exact here
      simp [apart]

/-- A slot that is bound to an axis comes to its coordinate of the point. -/
theorem evaluate_of_coordinate {slot : SlotName} {coordinate : LatticeAxis}
    (isBound : registry.binding? name slot = some (some (.coordinate coordinate)))
    (iteration : Nat) :
    registry.evaluate name slot iteration = .ok (.real (coordinate.value iteration)) := by
  obtain ⟨group, found, isBound⟩ := Option.bind_eq_some_iff.mp isBound
  have stops : group.source? slot = none := by
    simp [Group.source?, isBound]
  rw [evaluate, get_eq_ok_iff.mpr found, ok_bind]
  exact Group.evaluate_of_endsAt (Group.endsAt_self stops) (.coordinate isBound)

end Registry

namespace RunState

variable {arity : ArityLookup} {state after : RunState} {directive : Directive} {rank : Rank}
  {spec : LatticeSpec} {effects : List Effect}

/-- A lattice that is bound binds each slot that its targets name to the axis of the last of them,
and no other slot of any group. -/
theorem binding?_of_fire_lattice (isLattice : directive.action = .bindLattice rank spec)
    (fired : state.fire arity directive = .ok (after, effects)) :
    ∃ lattice, spec.Describes rank lattice ∧
      (∀ slot, (∃ target ∈ spec.targets, target.Names slot) →
        ∃ axis, lattice.hasAxis axis ∧ spec.AimedLast slot axis.position ∧
          after.registry.binding? directive.group slot = some (some (.coordinate ⟨lattice, axis⟩))) ∧
      ∀ name slot, (name = directive.group → ∀ target ∈ spec.targets, ¬ target.Names slot) →
        after.registry.binding? name slot = state.registry.binding? name slot := by
  rw [fire, isLattice] at fired
  obtain ⟨group, bound, bindings, found, named, rfl, aims, binds⟩ := binding?_of_bindLattice fired
  obtain ⟨lattice, describes, carried⟩ := aims.exists_lattice
  have replaced := Registry.binding?_replace found named
  refine ⟨lattice, describes, ?_, ?_⟩
  · rintro slot ⟨target, member, names⟩
    cases isLast : bindings.reverse.find? (·.slot = slot) with
    | none => exact absurd names (aims.not_names_of_find? isLast target member)
    | some last =>
      have isBinding := List.mem_reverse.mp (List.mem_of_find?_eq_some isLast)
      have hasAxis : lattice.hasAxis last.coordinate.axis := by
        rw [Lattice.hasAxis, describes.rank_eq]
        exact decide_eq_true (aims.hasAxis isBinding)
      refine ⟨last.coordinate.axis, hasAxis, aims.aimedLast_of_find? isLast, ?_⟩
      rw [replace, replaced, if_pos rfl, binds, isLast, ← carried last isBinding]
  · intro name slot untouched
    rw [replace, replaced]
    split
    case isTrue here =>
      subst here
      rw [binds, Registry.binding?, Registry.get_eq_ok_iff.mp found]
      cases isLast : bindings.reverse.find? (·.slot = slot) with
      | none => rfl
      | some last =>
        obtain ⟨⟨target, isTarget, names⟩, -⟩ := aims.aimedLast_of_find? isLast
        exact absurd names (untouched rfl target (List.mem_of_getElem? isTarget))
    case isFalse => rfl

end RunState

/-- A lattice directive that is carried out, in whatever state, binds one point per repetition. Each
slot that its targets name comes to the coordinate along the axis of the last target naming it, and
all other slots of all groups stay bound as they were. A coordinate is the entry of the origin, plus
the cell times the length by the dimension. Triangular packing adds half of that spacing to x in odd
rows and to y in odd layers, and nothing else. -/
theorem bound_lattice_gives_points {arity : ArityLookup} {state after : RunState}
    {directive : Directive} {rank : Rank} {spec : LatticeSpec} {effects : List Effect}
    (isLattice : directive.action = .bindLattice rank spec)
    (fired : state.fire arity directive = .ok (after, effects)) :
    ∃ lattice, spec.Describes rank lattice ∧
      (∀ slot, (∃ target ∈ spec.targets, target.Names slot) →
        ∃ axis, lattice.hasAxis axis ∧ spec.AimedLast slot axis.position ∧
          ∀ iteration, after.registry.evaluate directive.group slot iteration =
            .ok (.real ((lattice.point iteration).get axis))) ∧
      (∀ name slot, (name = directive.group → ∀ target ∈ spec.targets, ¬ target.Names slot) →
        after.registry.binding? name slot = state.registry.binding? name slot) ∧
      ∀ axis, lattice.hasAxis axis →
        ∃ (dim : Int64) (origin length : Float), spec.dims[axis.position]? = some dim ∧
          spec.origin[axis.position]? = some origin ∧
          spec.lengths[axis.position]? = some length ∧
          ∀ iteration,
            let cell := lattice.cell iteration
            let spacing := length / dim.toInt.toNat.toFloat
            let corner := origin + (cell.get axis).toFloat * spacing
            (lattice.point iteration).get axis =
              if spec.packing = .triangular ∧ axis.IsShifted cell then corner + 0.5 * spacing
              else corner := by
  obtain ⟨lattice, describes, bound, kept⟩ := RunState.binding?_of_fire_lattice isLattice fired
  refine ⟨lattice, describes, fun slot aimed => ?_, kept, fun axis isAxis => ?_⟩
  · obtain ⟨axis, isAxis, aimedLast, isBound⟩ := bound slot aimed
    exact ⟨axis, isAxis, aimedLast, Registry.evaluate_of_coordinate isBound⟩
  · obtain ⟨dim, isDim, counted, isOrigin, isLength⟩ := describes.along isAxis
    refine ⟨dim, _, _, isDim, isOrigin, isLength, fun iteration => ?_⟩
    rw [← counted, ← describes.packing_eq]
    exact lattice.get_point axis iteration

/-- Of three axes, the first and the last are aimed at one slot. -/
theorem last_axis_gives_points :
    let group : Group :=
      ⟨"G", [.ofPlaceholders "Move" ["x", "y"], .ofPlaceholders "Turn" ["angle"]]⟩
    let state : RunState := ⟨⟨[group]⟩, []⟩
    let spec : LatticeSpec := ⟨[⟨1, "x"⟩, ⟨2, "angle"⟩, ⟨1, "x"⟩], [3, 2, 2], [0.0, 1.0, 0.5],
      [3.0, 1.0, 4.0], .triangular⟩
    ∃ after effects lattice,
      state.fire (fun _ => none) ⟨7, "G", .bindLattice .three spec⟩ = .ok (after, effects) ∧
        spec.Describes .three lattice ∧
        (∀ iteration, after.registry.evaluate "G" ⟨⟨0⟩, "x"⟩ iteration =
          .ok (.real ((lattice.point iteration).get .z))) ∧
        after.registry.binding? "G" ⟨⟨0⟩, "y"⟩ = some none := by
  intro group state spec
  obtain ⟨after, effects, fired⟩ : ∃ after effects,
      state.fire (fun _ => none) ⟨7, "G", .bindLattice .three spec⟩ = .ok (after, effects) :=
    ⟨_, _, rfl⟩
  obtain ⟨lattice, describes, gives, kept, -⟩ := bound_lattice_gives_points rfl fired
  have names : RawSlot.Names ⟨1, "x"⟩ ⟨⟨0⟩, "x"⟩ := ⟨rfl, rfl⟩
  obtain ⟨axis, -, aimedLast, points⟩ := gives ⟨⟨0⟩, "x"⟩ ⟨⟨1, "x"⟩, by simp [spec], names⟩
  refine ⟨after, effects, lattice, fired, describes, ?_, ?_⟩
  · cases axis with
    | z => exact points
    | x | y => exact absurd names (aimedLast.last 2 _ (by decide) rfl)
  · exact kept "G" ⟨⟨0⟩, "y"⟩ fun _ => by simp [spec, RawSlot.Names]

end TimedCommands
