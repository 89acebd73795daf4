import Mathlib.Order.Interval.Finset.Nat
import Mathlib.Tactic.Ring
import TimedCommands.Lattice

/-!
# The cells of a lattice in order

The cells of a lattice have an order, in which the x axis runs fastest; `Triple.place` counts
them. A repetition selects the cell whose place is what is left of the repetition when whole
passes over the grid are taken away (`place_cell`), and each cell is the one at its place
(`cell_place`). Whatever is said about how repetitions go through the grid follows from these two:
cells are not visited again before all are, and then in the same order.

A cell is found by dividing 64-bit words and kept as three 32-bit ones. `wordCell?` does so and
fails where a word would not hold what it is given. It never does (`exists_wordCell?`): a product
of two dimensions is still a word, though that of all three need not be.
-/

namespace TimedCommands

/-! Words that are checked before they are computed. -/

namespace Word

/-- The product of two words, if it is a word. -/
def multiply? (first second : UInt64) : Option UInt64 :=
  if first.toNat * second.toNat < UInt64.size then some (first * second) else none

/-- The quotient of two words, unless the divisor is zero. -/
def divide? (dividend divisor : UInt64) : Option UInt64 :=
  if divisor = 0 then none else some (dividend / divisor)

/-- What a division leaves over, unless the divisor is zero. -/
def remainder? (dividend divisor : UInt64) : Option UInt64 :=
  if divisor = 0 then none else some (dividend % divisor)

/-- A word in half the bits, if nothing of it is cut off. -/
def narrow? (word : UInt64) : Option UInt32 :=
  if word.toNat < UInt32.size then some word.toUInt32 else none

variable {first second divisor word : UInt64}

/-- A product that fits a word is computed. -/
theorem exists_multiply? (fits : first.toNat * second.toNat < UInt64.size) :
    ∃ product, multiply? first second = some product ∧
      product.toNat = first.toNat * second.toNat := by
  refine ⟨first * second, if_pos fits, ?_⟩
  rw [UInt64.toNat_mul]
  exact Nat.mod_eq_of_lt fits

/-- A positive word is not zero. -/
theorem ne_zero_of_pos (positive : 0 < divisor.toNat) : divisor ≠ 0 := by
  rintro rfl
  exact absurd positive (Nat.lt_irrefl 0)

/-- A quotient by a positive word is computed. -/
theorem exists_divide? (dividend : UInt64) (positive : 0 < divisor.toNat) :
    ∃ quotient, divide? dividend divisor = some quotient ∧
      quotient.toNat = dividend.toNat / divisor.toNat :=
  ⟨dividend / divisor, if_neg (ne_zero_of_pos positive), UInt64.toNat_div ..⟩

/-- A remainder by a positive word is computed. -/
theorem exists_remainder? (dividend : UInt64) (positive : 0 < divisor.toNat) :
    ∃ rest, remainder? dividend divisor = some rest ∧
      rest.toNat = dividend.toNat % divisor.toNat :=
  ⟨dividend % divisor, if_neg (ne_zero_of_pos positive), UInt64.toNat_mod ..⟩

/-- A word that fits its lower half is narrowed without loss. -/
theorem exists_narrow? (fits : word.toNat < UInt32.size) :
    ∃ half, narrow? word = some half ∧ half.toNat = word.toNat := by
  refine ⟨word.toUInt32, if_pos fits, ?_⟩
  rw [UInt64.toNat_toUInt32]
  exact Nat.mod_eq_of_lt fits

end Word

namespace Triple

/-- Changes each component. -/
def map {α β : Type} (change : α → β) (triple : Triple α) : Triple β :=
  ⟨change triple.x, change triple.y, change triple.z⟩

/-- A cell lies in a grid: each of its indices is below the dimension of its axis. -/
structure Within (cell dims : Triple Nat) : Prop where
  x : cell.x < dims.x
  y : cell.y < dims.y
  z : cell.z < dims.z

/-- The place of a cell in the order of a grid, the x axis running fastest. -/
def place (dims cell : Triple Nat) : Nat :=
  cell.x + dims.x * cell.y + dims.x * dims.y * cell.z

end Triple

namespace Lattice

/-- A dimension counts as at least one. -/
def atLeastOne (dim : UInt32) : UInt32 := if dim = 0 then 1 else dim

/-- A lattice made from 32-bit dimensions, with those that count. -/
inductive Made : Lattice → Triple UInt32 → Prop where
  | planar (nx ny : UInt32) (ox oy lx ly : Float) (packing : Packing) :
      Made (.planar nx.toNat ny.toNat ox oy lx ly packing) ⟨atLeastOne nx, atLeastOne ny, 1⟩
  | spatial (dims : Triple UInt32) (origin lengths : Triple Float) (packing : Packing) :
      Made (.spatial (dims.map UInt32.toNat) origin lengths packing) (dims.map atLeastOne)

/-- A dimension of zero is raised to one. -/
theorem toNat_atLeastOne (dim : UInt32) : (atLeastOne dim).toNat = max dim.toNat 1 := by
  rw [atLeastOne]
  split
  case isTrue zero =>
    subst zero
    rfl
  case isFalse positive =>
    have some : dim.toNat ≠ 0 := fun zero => positive (UInt32.toNat_inj.mp zero)
    omega

/-- A lattice has the dimensions that it was made with. -/
theorem Made.dims_eq {lattice : Lattice} {dims : Triple UInt32} (made : lattice.Made dims) :
    lattice.dims = dims.map UInt32.toNat := by
  cases made with
  | planar nx ny =>
    change (⟨max nx.toNat 1, max ny.toNat 1, 1⟩ : Triple Nat) = _
    rw [← toNat_atLeastOne, ← toNat_atLeastOne]
    rfl
  | spatial dims =>
    change (⟨max dims.x.toNat 1, max dims.y.toNat 1, max dims.z.toNat 1⟩ : Triple Nat) = _
    rw [← toNat_atLeastOne, ← toNat_atLeastOne, ← toNat_atLeastOne]
    rfl

/-- The dimensions of a lattice are positive. -/
theorem Made.positive {lattice : Lattice} {dims : Triple UInt32} (made : lattice.Made dims) :
    Triple.Within ⟨0, 0, 0⟩ lattice.dims := by
  rw [made.dims_eq]
  cases made <;> constructor <;> simp [Triple.map, toNat_atLeastOne]

section Order

variable {lattice : Lattice} {cell : Triple Nat} {first second : Nat}

/-- Every iteration has a cell within the dimensions. -/
theorem cell_within (positive : Triple.Within ⟨0, 0, 0⟩ lattice.dims) (iteration : Nat) :
    (lattice.cell iteration).Within lattice.dims where
  x := Nat.mod_lt _ positive.x
  y := Nat.mod_lt _ positive.y
  z := Nat.mod_lt _ positive.z

/-- The cell of a repetition is at the place that is left when whole passes are taken away. -/
theorem place_cell (lattice : Lattice) (iteration : Nat) :
    Triple.place lattice.dims (lattice.cell iteration) = iteration % lattice.pointCount := by
  have rows : iteration % (lattice.dims.x * lattice.dims.y) = _ := Nat.mod_mul
  have layers : iteration % (lattice.dims.x * lattice.dims.y * lattice.dims.z) = _ := Nat.mod_mul
  rw [pointCount, layers, rows]
  rfl

/-- A cell of the grid is the one that its place selects. -/
theorem cell_place (within : cell.Within lattice.dims) :
    lattice.cell (Triple.place lattice.dims cell) = cell := by
  obtain ⟨insideRow, insideLayer, insideGrid⟩ := within
  -- The place in terms of the row that the cell is in, counted over all layers.
  have byRow : Triple.place lattice.dims cell =
      cell.x + lattice.dims.x * (cell.y + lattice.dims.y * cell.z) := by
    rw [Triple.place]
    ring
  have row : Triple.place lattice.dims cell / lattice.dims.x =
      cell.y + lattice.dims.y * cell.z := by
    rw [byRow, Nat.add_mul_div_left _ _ (by omega), Nat.div_eq_of_lt insideRow, Nat.zero_add]
  have layer : Triple.place lattice.dims cell / (lattice.dims.x * lattice.dims.y) = cell.z := by
    rw [← Nat.div_div_eq_div_mul, row, Nat.add_mul_div_left _ _ (by omega),
      Nat.div_eq_of_lt insideLayer, Nat.zero_add]
  have x : Triple.place lattice.dims cell % lattice.dims.x = cell.x := by
    rw [byRow, Nat.add_mul_mod_self_left, Nat.mod_eq_of_lt insideRow]
  rw [Lattice.cell, x, row, layer, Nat.add_mul_mod_self_left, Nat.mod_eq_of_lt insideLayer,
    Nat.mod_eq_of_lt insideGrid]

/-- Two repetitions select the same cell exactly if whole passes lie between them. -/
theorem cell_eq_iff (positive : Triple.Within ⟨0, 0, 0⟩ lattice.dims) :
    lattice.cell first = lattice.cell second ↔
      first % lattice.pointCount = second % lattice.pointCount := by
  rw [← place_cell, ← place_cell]
  constructor
  · exact fun same => congrArg _ same
  · intro same
    rw [← cell_place (cell_within positive first), same, cell_place (cell_within positive second)]

/-- A cell within the dimensions has a place below the number of points. -/
theorem place_lt (positive : Triple.Within ⟨0, 0, 0⟩ lattice.dims)
    (within : cell.Within lattice.dims) :
    Triple.place lattice.dims cell < lattice.pointCount := by
  have whole := place_cell lattice (Triple.place lattice.dims cell)
  rw [cell_place within] at whole
  rw [whole]
  exact Nat.mod_lt _ (Nat.mul_pos (Nat.mul_pos positive.x positive.y) positive.z)

/-- From wherever a pass begins, it comes through each cell once. -/
theorem existsUnique_cell (positive : Triple.Within ⟨0, 0, 0⟩ lattice.dims)
    (within : cell.Within lattice.dims) (start : Nat) :
    ∃! iteration, start ≤ iteration ∧ iteration < start + lattice.pointCount ∧
      lattice.cell iteration = cell := by
  have below := place_lt positive within
  have selects_iff (iteration : Nat) : lattice.cell iteration = cell ↔
      iteration % lattice.pointCount = Triple.place lattice.dims cell := by
    rw [← cell_place within, cell_eq_iff positive, cell_place within, Nat.mod_eq_of_lt below]
  have residue : Triple.place lattice.dims cell ∈
      (Finset.Ico start (start + lattice.pointCount)).image (· % lattice.pointCount) := by
    rw [Nat.image_Ico_mod, Finset.mem_range]
    exact below
  obtain ⟨iteration, inPass, selects⟩ := Finset.mem_image.mp residue
  obtain ⟨behind, before⟩ := Finset.mem_Ico.mp inPass
  refine ⟨iteration, ⟨behind, before, (selects_iff iteration).mpr selects⟩, ?_⟩
  rintro other ⟨behindOther, beforeOther, selectsOther⟩
  refine Nat.mod_injOn_Ico start lattice.pointCount
    (Finset.mem_coe.mpr (Finset.mem_Ico.mpr ⟨behindOther, beforeOther⟩))
    (Finset.mem_coe.mpr inPass) ?_
  exact ((selects_iff other).mp selectsOther).trans selects.symm

end Order

/-- The cell of a repetition as it is computed on words: none if a product is not a word, a divisor
is zero, or an index has more than 32 bits. -/
def wordCell? (dims : Triple UInt32) (iteration : UInt32) : Option (Triple UInt32) := do
  let x ← Word.remainder? iteration.toUInt64 dims.x.toUInt64
  let rows ← Word.divide? iteration.toUInt64 dims.x.toUInt64
  let y ← Word.remainder? rows dims.y.toUInt64
  let layer ← Word.multiply? dims.x.toUInt64 dims.y.toUInt64
  let layers ← Word.divide? iteration.toUInt64 layer
  let z ← Word.remainder? layers dims.z.toUInt64
  return ⟨← Word.narrow? x, ← Word.narrow? y, ← Word.narrow? z⟩

/-- The product of two dimensions is a word, whatever they are. -/
theorem layer_lt_size (dims : Triple UInt32) :
    dims.x.toUInt64.toNat * dims.y.toUInt64.toNat < UInt64.size := by
  rw [UInt32.toNat_toUInt64, UInt32.toNat_toUInt64]
  exact Nat.mul_lt_mul'' dims.x.toNat_lt_size dims.y.toNat_lt_size

/-- An index of a cell has no more bits than the dimension of its axis. -/
theorem exists_narrow?_index {index : UInt64} {below : Nat} {dim : UInt32} (positive : 0 < dim.toNat)
    (isRest : index.toNat = below % dim.toUInt64.toNat) :
    ∃ half, Word.narrow? index = some half ∧ half.toNat = below % dim.toNat := by
  rw [UInt32.toNat_toUInt64] at isRest
  have inside : below % dim.toNat < dim.toNat := Nat.mod_lt below positive
  have fits : index.toNat < UInt32.size := isRest ▸ Nat.lt_trans inside dim.toNat_lt_size
  rw [← isRest]
  exact Word.exists_narrow? fits

/-- On words, the cell of a repetition is found without a failure. -/
theorem exists_wordCell? {lattice : Lattice} {dims : Triple UInt32} (made : lattice.Made dims)
    (iteration : UInt32) :
    ∃ cell, wordCell? dims iteration = some cell ∧
      cell.map UInt32.toNat = lattice.cell iteration.toNat := by
  have positive := made.positive
  rw [made.dims_eq] at positive
  have widened (dim : UInt32) (some : 0 < dim.toNat) : 0 < dim.toUInt64.toNat := by
    rwa [UInt32.toNat_toUInt64]
  have inRow := widened dims.x positive.x
  have inLayer := widened dims.y positive.y
  obtain ⟨x, isX, restX⟩ := Word.exists_remainder? iteration.toUInt64 inRow
  obtain ⟨rows, isRows, countRows⟩ := Word.exists_divide? iteration.toUInt64 inRow
  obtain ⟨y, isY, restY⟩ := Word.exists_remainder? rows inLayer
  obtain ⟨layer, isLayer, sizeLayer⟩ := Word.exists_multiply? (layer_lt_size dims)
  have inGrid : 0 < layer.toNat := sizeLayer ▸ Nat.mul_pos inRow inLayer
  obtain ⟨layers, isLayers, countLayers⟩ := Word.exists_divide? iteration.toUInt64 inGrid
  obtain ⟨z, isZ, restZ⟩ := Word.exists_remainder? layers (widened dims.z positive.z)
  obtain ⟨halfX, isHalfX, indexX⟩ := exists_narrow?_index positive.x restX
  obtain ⟨halfY, isHalfY, indexY⟩ := exists_narrow?_index positive.y restY
  obtain ⟨halfZ, isHalfZ, indexZ⟩ := exists_narrow?_index positive.z restZ
  refine ⟨⟨halfX, halfY, halfZ⟩, ?_, ?_⟩
  · simp [wordCell?, isX, isRows, isY, isLayer, isLayers, isZ, isHalfX, isHalfY, isHalfZ]
  · rw [countRows] at indexY
    rw [countLayers, sizeLayer] at indexZ
    simp only [UInt32.toNat_toUInt64] at indexX indexY indexZ
    rw [Triple.map, indexX, indexY, indexZ, Lattice.cell, made.dims_eq]
    rfl

/-- The cells that repetitions select go through the grid in order. On 64-bit words, each cell is
found without an overflow, a division by zero or an index cut off; its indices are below the
dimensions, and its place is the repetition less whole passes. So the repetitions of a first pass
select different cells, a pass selects each cell once wherever it begins, and a pass later the
same cell is selected again. -/
theorem cells_enumerate_grid {lattice : Lattice} {dims : Triple UInt32}
    (made : lattice.Made dims) :
    let sizes := dims.map UInt32.toNat
    let count := sizes.x * sizes.y * sizes.z
    (∀ iteration : UInt32, ∃ cell, wordCell? dims iteration = some cell ∧
      cell.map UInt32.toNat = lattice.cell iteration.toNat ∧
      cell.x < dims.x ∧ cell.y < dims.y ∧ cell.z < dims.z ∧
      cell.x.toNat + sizes.x * cell.y.toNat + sizes.x * sizes.y * cell.z.toNat =
        iteration.toNat % count) ∧
    (∀ first second, first < count → second < count →
      lattice.cell first = lattice.cell second → first = second) ∧
    (∀ cell, Triple.Within cell sizes → ∀ start, ∃! iteration,
      start ≤ iteration ∧ iteration < start + count ∧ lattice.cell iteration = cell) ∧
    ∀ iteration, lattice.cell (iteration + count) = lattice.cell iteration := by
  intro sizes count
  have positive := made.positive
  have sizes_eq : lattice.dims = sizes := made.dims_eq
  have count_eq : lattice.pointCount = count := by rw [pointCount, sizes_eq]
  refine ⟨fun iteration => ?_, fun first second below belowSecond same => ?_,
    fun cell within start => ?_, fun iteration => ?_⟩
  · obtain ⟨cell, found, isCell⟩ := exists_wordCell? made iteration
    have within := cell_within positive iteration.toNat
    have place := place_cell lattice iteration.toNat
    rw [← isCell, sizes_eq] at within place
    rw [count_eq] at place
    exact ⟨cell, found, isCell, within.x, within.y, within.z, place⟩
  · have residues := (cell_eq_iff positive).mp same
    rwa [count_eq, Nat.mod_eq_of_lt below, Nat.mod_eq_of_lt belowSecond] at residues
  · rw [← count_eq]
    exact existsUnique_cell positive (sizes_eq ▸ within) start
  · rw [cell_eq_iff positive, count_eq, Nat.add_mod_right]

/-- A grid of more cells than a word can count, gone through from a repetition on. -/
theorem cells_enumerate_vast_grid :
    let vast := Lattice.spatial ⟨4294967295, 4294967295, 2⟩ ⟨0, 0, 0⟩ ⟨1, 1, 1⟩ .triangular
    vast.Made ⟨4294967295, 4294967295, 2⟩ ∧ vast.cell 4294967296 = ⟨1, 1, 0⟩ ∧
      ∃! iteration, 7 ≤ iteration ∧ iteration < 7 + 36893488130239234050 ∧
        vast.cell iteration = ⟨4294967294, 0, 1⟩ := by
  intro vast
  have made : vast.Made ⟨4294967295, 4294967295, 2⟩ :=
    .spatial ⟨4294967295, 4294967295, 2⟩ ⟨0, 0, 0⟩ ⟨1, 1, 1⟩ .triangular
  exact ⟨made, by decide, (cells_enumerate_grid made).2.2.1 ⟨4294967294, 0, 1⟩
    ⟨by decide, by decide, by decide⟩ 7⟩

end Lattice

end TimedCommands
