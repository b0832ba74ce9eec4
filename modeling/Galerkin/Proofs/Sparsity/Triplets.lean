import Galerkin.Proofs.Assembly.Expansion
import Galerkin.Proofs.Assembly.Positions
import Mathlib.Data.List.Nodup
import Mathlib.Data.List.ProdSigma

/-! # Entries of a banded matrix

Each position of a banded matrix has a block of entries, and the sparse matrix has one entry for each position
and each pair of components. The checks of a banded matrix count modulo the number of words. If the counts are
exact the sparse matrix exists; without repeated pairs its entries are at different places.

* **`BandedMatrix.Counted`** — matrices whose counts are exact;
* **`BandedMatrix.rowNumber`**, **`BandedMatrix.colNumber`** — row and column of a component at a position;
* **`BandedMatrix.entry_eq`** — the block at a position;
* **`BandedMatrix.toSparse_eq_blocks`** — the sparse matrix;
* **`BandedMatrix.sparse_spec`** — the sparse matrix of a matrix that has been made. -/

namespace Galerkin

namespace BandedMatrix

variable {α : Type} {m : BandedMatrix α} {p q : List Nat}

/-! ## (1) Counts -/

/-- The number of candidate pairs on each axis. -/
def sizes (m : BandedMatrix α) : List Nat := m.candidates.map (·.size)

/-- The basis functions and components of the rows. -/
def rowLayout (m : BandedMatrix α) : Layout := ⟨m.rowDofs.map UInt64.toNat, m.rowComponents⟩

/-- The basis functions and components of the columns. -/
def colLayout (m : BandedMatrix α) : Layout := ⟨m.colDofs.map UInt64.toNat, m.colComponents⟩

/-- **A matrix whose counts are exact.** Its candidates and entries are counted in words, as all data are; so
are the entries that it should have; and its rows and columns are within the range of storage indices. -/
structure Counted (m : BandedMatrix α) : Prop where
  row_axes : m.rowDofs.length = m.candidates.length
  col_axes : m.colDofs.length = m.candidates.length
  words : ∀ c ∈ m.candidates, ∀ x ∈ c.pairs, x.1 < UInt64.size ∧ x.2 < UInt64.size
  stored : m.entries.size < UInt64.size
  entries : MultiIndex.product m.sizes * m.blockSize < UInt64.size
  rows : m.rowLayout.FitsStorage
  cols : m.colLayout.FitsStorage

/-- **What is true of a matrix that has been made.** -/
structure Made (m : BandedMatrix α) : Prop where
  rowComponents_pos : 0 < m.rowComponents
  colComponents_pos : 0 < m.colComponents
  axes : ∀ x ∈ m.candidates.zip (m.rowDofs.zip m.colDofs), x.1.test.size = x.1.trial.size ∧
    ∀ y ∈ x.1.pairs, UInt64.ofNat y.1 < x.2.1 ∧ UInt64.ofNat y.2 < x.2.2
  size : UInt64.ofNat m.entries.size = UInt64.ofNat (MultiIndex.product m.sizes * m.blockSize)

/-- A matrix from its parts. -/
theorem made_of_make {candidates : List AxisCandidates} {rowDofs colDofs : List UInt64} {entries : Array α}
    {nr nc : Int} (h : make candidates rowDofs colDofs entries nr nc = .ok m) : m.Made := by
  obtain ⟨⟨hr, hc⟩, haxes, hsize, rfl⟩ := make_eq_ok_iff.mp h
  exact ⟨Int.lt_toNat.mpr hr, Int.lt_toNat.mpr hc, haxes, hsize⟩

/-- The number of rows is that of the unknowns of their functions. -/
theorem rows_eq_unknowns : m.rows = m.rowLayout.unknowns := by
  rw [rows, Layout.unknowns, Layout.functions, Layout.words, rowLayout, map_ofNat_toNat]
  rfl

/-- The number of columns is that of the unknowns of their functions. -/
theorem cols_eq_unknowns : m.cols = m.colLayout.unknowns := by
  rw [cols, Layout.unknowns, Layout.functions, Layout.words, colLayout, map_ofNat_toNat]
  rfl

/-! ## (2) Positions and blocks -/

/-- There is at least one entry at a position. -/
theorem Made.blockSize_pos (h : m.Made) : 0 < m.blockSize :=
  Nat.mul_pos h.rowComponents_pos h.colComponents_pos

/-- The block with some number. -/
def blockOf (m : BandedMatrix α) (mu : Nat) : Array α :=
  m.entries.extract (mu * m.blockSize) (mu * m.blockSize + m.blockSize)

/-- An entry of a block among all entries. -/
theorem getD_blockOf {mu s : Nat} (hs : s < m.blockSize) (d : α) :
    (m.blockOf mu).getD s d = m.entries.getD (mu * m.blockSize + s) d := by
  rw [Array.getD_eq_getD_getElem?, Array.getD_eq_getD_getElem?, blockOf, Array.getElem?_extract]
  split
  · rfl
  · rw [Array.getElem?_eq_none (by omega)]

/-- **The digits of a number are the position with this number.** -/
theorem exists_position {mu : Nat} (hmu : mu < MultiIndex.product m.sizes) :
    ∃ p, MultiIndex.multiIndex mu m.sizes = p ∧ IsPosition m.candidates p ∧
      MultiIndex.linearIndex p m.sizes = mu := by
  obtain ⟨p, hp, hnumber⟩ := MultiIndex.exists_linearIndex_eq hmu
  exact ⟨p, hnumber ▸ MultiIndex.multiIndex_linearIndex hp, isPosition_iff.mpr hp, hnumber⟩

/-! ## (3) Rows and columns -/

/-- The row of component `r` at a position. -/
def rowNumber (m : BandedMatrix α) (p : List Nat) (r : Nat) : Nat :=
  MultiIndex.linearIndex ((pairsOn m.candidates p).map (·.1)) m.rowLayout.dofs * m.rowComponents + r

/-- The column of component `c` at a position. -/
def colNumber (m : BandedMatrix α) (p : List Nat) (c : Nat) : Nat :=
  MultiIndex.linearIndex ((pairsOn m.candidates p).map (·.2)) m.colLayout.dofs * m.colComponents + c

section Counted

variable (hmade : m.Made) (hm : m.Counted)
include hmade hm

/-- The candidates of an axis pair up and name functions. -/
theorem Counted.axis {k : Nat} (hk : k < m.candidates.length) :
    m.candidates[k].test.size = m.candidates[k].trial.size ∧ ∀ x ∈ m.candidates[k].pairs,
      x.1 < (m.rowDofs.get ⟨k, hk.trans_eq hm.row_axes.symm⟩).toNat ∧
        x.2 < (m.colDofs.get ⟨k, hk.trans_eq hm.col_axes.symm⟩).toNat := by
  have hrow := hk.trans_eq hm.row_axes.symm
  have hcol := hk.trans_eq hm.col_axes.symm
  have hmem : (m.candidates[k], m.rowDofs[k], m.colDofs[k]) ∈ m.candidates.zip (m.rowDofs.zip m.colDofs) := by
    refine List.mem_iff_getElem.mpr ⟨k, ?_, ?_⟩
    · rw [List.length_zip, List.length_zip]
      omega
    · rw [List.getElem_zip, List.getElem_zip]
  obtain ⟨hlen, hpairs⟩ := hmade.axes _ hmem
  refine ⟨hlen, fun x hx => ?_⟩
  -- The checks look at words, which stand for the numbers themselves here.
  obtain ⟨hwordRow, hwordCol⟩ := hm.words _ (List.getElem_mem hk) x hx
  obtain ⟨hlow, hhigh⟩ := hpairs x hx
  rw [UInt64.lt_iff_toNat_lt, UInt64.toNat_ofNat_of_lt' hwordRow] at hlow
  rw [UInt64.lt_iff_toNat_lt, UInt64.toNat_ofNat_of_lt' hwordCol] at hhigh
  exact ⟨hlow, hhigh⟩

/-- The candidates of every axis pair up. -/
theorem Counted.sizes_eq : ∀ c ∈ m.candidates, c.test.size = c.trial.size := by
  intro c hc
  obtain ⟨k, hk, rfl⟩ := List.getElem_of_mem hc
  exact (hm.axis hmade hk).1

/-- **The functions of a position** are in range. -/
theorem Counted.pairsOn_lt (hp : IsPosition m.candidates p) :
    List.Forall₂ (· < ·) ((pairsOn m.candidates p).map (·.1)) m.rowLayout.dofs ∧
      List.Forall₂ (· < ·) ((pairsOn m.candidates p).map (·.2)) m.colLayout.dofs := by
  have hlens := hm.sizes_eq hmade
  constructor
  · refine Assembler.forall₂_lt_of_position hlens (List.forall₂_iff_get.mpr ⟨?_, fun k hk hk' x hx => ?_⟩) hp
    · exact (hm.row_axes.symm.trans (List.length_map _).symm)
    · simpa [rowLayout] using ((hm.axis hmade hk).2 x hx).1
  · refine Assembler.forall₂_lt_of_position hlens (List.forall₂_iff_get.mpr ⟨?_, fun k hk hk' x hx => ?_⟩) hp
    · exact (hm.col_axes.symm.trans (List.length_map _).symm)
    · simpa [colLayout] using ((hm.axis hmade hk).2 x hx).2

/-- **Rows and columns are in range.** -/
theorem Counted.numbers_lt (hp : IsPosition m.candidates p) {r c : Nat} (hr : r < m.rowComponents)
    (hc : c < m.colComponents) : m.rowNumber p r < m.rows.toNat ∧ m.colNumber p c < m.cols.toNat := by
  obtain ⟨hrow, hcol⟩ := hm.pairsOn_lt hmade hp
  rw [rows_eq_unknowns, cols_eq_unknowns, Layout.toNat_unknowns hm.rows, Layout.toNat_unknowns hm.cols]
  exact ⟨MultiIndex.unknown_lt hrow hr, MultiIndex.unknown_lt hcol hc⟩

/-- **Row and column determine position and components,** if no axis lists a pair twice. -/
theorem Counted.numbers_inj (hnodup : ∀ c ∈ m.candidates, c.pairs.Nodup) (hp : IsPosition m.candidates p)
    (hq : IsPosition m.candidates q) {r s c d : Nat} (hr : r < m.rowComponents) (hs : s < m.rowComponents)
    (hc : c < m.colComponents) (hd : d < m.colComponents) (hrow : m.rowNumber p r = m.rowNumber q s)
    (hcol : m.colNumber p c = m.colNumber q d) : p = q ∧ r = s ∧ c = d := by
  obtain ⟨hprow, hpcol⟩ := hm.pairsOn_lt hmade hp
  obtain ⟨hqrow, hqcol⟩ := hm.pairsOn_lt hmade hq
  obtain ⟨htest, rfl⟩ := MultiIndex.eq_and_eq_of_mul_add_eq hr hs hrow
  obtain ⟨htrial, rfl⟩ := MultiIndex.eq_and_eq_of_mul_add_eq hc hd hcol
  -- Rows and columns have the same functions, and so on every axis the same pair.
  have hpairs : pairsOn m.candidates p = pairsOn m.candidates q :=
    (List.zip_of_prod (MultiIndex.linearIndex_inj hprow hqrow htest)
      (MultiIndex.linearIndex_inj hpcol hqcol htrial)).trans (List.zip_of_prod rfl rfl).symm
  exact ⟨pairsOn_inj (hm.sizes_eq hmade) hnodup hp hq hpairs, rfl, rfl⟩

/-! ## (4) The sparse matrix -/

/-- Positions can be counted in words. -/
theorem Counted.product_lt : MultiIndex.product m.sizes < UInt64.size :=
  Nat.lt_of_le_of_lt (Nat.le_mul_of_pos_right _ hmade.blockSize_pos) hm.entries

/-- **The number of positions.** -/
theorem Counted.toNat_positions : m.positions.toNat = MultiIndex.product m.sizes := by
  rw [positions_eq]
  exact UInt64.toNat_ofNat_of_lt' (hm.product_lt hmade)

/-- **There is a block of entries for each position.** -/
theorem Counted.size_entries : m.entries.size = MultiIndex.product m.sizes * m.blockSize := by
  have hsize := congrArg UInt64.toNat hmade.size
  rwa [UInt64.toNat_ofNat_of_lt' hm.stored, UInt64.toNat_ofNat_of_lt' hm.entries] at hsize

/-- **The block at a position** is there, and has an entry for each pair of components. -/
theorem Counted.entry_eq {mu : Nat} (hmu : mu < MultiIndex.product m.sizes) :
    m.entry (UInt64.ofNat mu) = .ok (m.blockOf mu) ∧ (m.blockOf mu).size = m.blockSize := by
  have hword : (UInt64.ofNat mu).toNat = mu :=
    UInt64.toNat_ofNat_of_lt' (Nat.lt_trans hmu (hm.product_lt hmade))
  constructor
  · refine bind_eq_ok_iff.mpr ⟨(), checkWord_eq_ok_iff.mpr ?_, ?_⟩
    · rwa [UInt64.lt_iff_toNat_lt, hword, hm.toNat_positions hmade]
    · rw [hword]
      rfl
  · have hlast : mu * m.blockSize + m.blockSize ≤ m.entries.size := by
      rw [hm.size_entries hmade, ← Nat.succ_mul]
      exact Nat.mul_le_mul_right _ hmu
    rw [blockOf, Array.size_extract, Nat.min_eq_left hlast, Nat.add_sub_cancel_left]

/-- Row and column of a component at the position with some number, as words. -/
theorem Counted.globalIndex_eq {mu : Nat} (hmu : mu < MultiIndex.product m.sizes) (r c : Nat) :
    m.globalIndex (UInt64.ofNat mu) r c =
      (UInt64.ofNat (m.rowNumber (MultiIndex.multiIndex mu m.sizes) r),
        UInt64.ofNat (m.colNumber (MultiIndex.multiIndex mu m.sizes) c)) := by
  obtain ⟨p, hdigits, hp, rfl⟩ := exists_position hmu
  rw [hdigits]
  exact globalIndex_position hp (hm.product_lt hmade) (map_ofNat_toNat _).symm (map_ofNat_toNat _).symm r c

variable [Scalar α]

/-- **The entry of a pair of components at a position,** with its row and column. -/
def tripletAt (m : BandedMatrix α) (x : Nat × Nat × Nat) : Triplet α :=
  ⟨UInt64.ofNat (m.rowNumber (MultiIndex.multiIndex x.1 m.sizes) x.2.1),
    UInt64.ofNat (m.colNumber (MultiIndex.multiIndex x.1 m.sizes) x.2.2),
    (m.blockOf x.1).getD (x.2.1 * m.colComponents + x.2.2) Scalar.zero⟩

/-- All positions with all pairs of components, in storage order. -/
def cells (m : BandedMatrix α) : List (Nat × Nat × Nat) :=
  List.range (MultiIndex.product m.sizes) ×ˢ (List.range m.rowComponents ×ˢ List.range m.colComponents)

omit hmade hm [Scalar α] in
/-- A position and a pair of components. -/
theorem mem_cells {x : Nat × Nat × Nat} : x ∈ m.cells ↔
    x.1 < MultiIndex.product m.sizes ∧ x.2.1 < m.rowComponents ∧ x.2.2 < m.colComponents := by
  rw [cells, List.mem_product, List.mem_product, List.mem_range, List.mem_range, List.mem_range]

/-- The entries of a block, one for each pair of components. -/
theorem Counted.blockTriplets_eq {mu : Nat} (hmu : mu < MultiIndex.product m.sizes) :
    m.blockTriplets mu = (List.range m.rowComponents ×ˢ List.range m.colComponents).map fun x =>
      m.tripletAt (mu, x) := by
  have hproduct : List.range m.rowComponents ×ˢ List.range m.colComponents =
      (List.range m.rowComponents).flatMap fun r => (List.range m.colComponents).map (Prod.mk r) := rfl
  rw [hproduct, List.map_flatMap]
  refine List.flatMap_congr fun r hr => ?_
  rw [List.map_map]
  refine List.map_congr_left fun c hc => ?_
  -- Only inside its block is an entry of the block one of the matrix.
  have hs : r * m.colComponents + c < m.blockSize :=
    mul_add_lt_of_lt (List.mem_range.mp hr) (List.mem_range.mp hc) 0
  rw [hm.globalIndex_eq hmade hmu, Function.comp_apply, tripletAt, getD_blockOf hs, Nat.add_assoc]

/-- **The entries of all positions,** one for each pair of components. -/
theorem Counted.triplets_eq : m.triplets = m.cells.map m.tripletAt := by
  have hproduct : m.cells = (List.range (MultiIndex.product m.sizes)).flatMap fun mu =>
      (List.range m.rowComponents ×ˢ List.range m.colComponents).map (Prod.mk mu) := rfl
  rw [triplets, hm.toNat_positions hmade, hproduct, List.map_flatMap]
  refine List.flatMap_congr fun mu hmu => ?_
  rw [hm.blockTriplets_eq hmade (List.mem_range.mp hmu), List.map_map]
  rfl

omit [Scalar α] in
/-- The numbers of an entry are in range, and so are the words for them. -/
theorem Counted.cell_numbers {x : Nat × Nat × Nat} (hx : x ∈ m.cells) :
    m.rowNumber (MultiIndex.multiIndex x.1 m.sizes) x.2.1 < m.rows.toNat ∧
      m.colNumber (MultiIndex.multiIndex x.1 m.sizes) x.2.2 < m.cols.toNat := by
  obtain ⟨hmu, hr, hc⟩ := mem_cells.mp hx
  obtain ⟨p, hdigits, hp, -⟩ := exists_position hmu
  rw [hdigits]
  exact hm.numbers_lt hmade hp hr hc

/-- Row and column of an entry stand for their numbers. -/
theorem Counted.toNat_tripletAt {x : Nat × Nat × Nat} (hx : x ∈ m.cells) :
    (m.tripletAt x).row.toNat = m.rowNumber (MultiIndex.multiIndex x.1 m.sizes) x.2.1 ∧
      (m.tripletAt x).col.toNat = m.colNumber (MultiIndex.multiIndex x.1 m.sizes) x.2.2 := by
  obtain ⟨hrow, hcol⟩ := hm.cell_numbers hmade hx
  exact ⟨UInt64.toNat_ofNat_of_lt' (Nat.lt_trans hrow (UInt64.toNat_lt_size _)),
    UInt64.toNat_ofNat_of_lt' (Nat.lt_trans hcol (UInt64.toNat_lt_size _))⟩

/-- **The sparse matrix** of a banded one whose counts are exact. -/
theorem Counted.toSparse_eq : m.toSparse = .ok ⟨m.rows, m.cols, (m.cells.map m.tripletAt).toArray⟩ := by
  have hlimit : ∀ {l : Layout}, l.FitsStorage → l.unknowns ≤ SparseMatrix.storageLimit := by
    intro l hl
    rw [UInt64.le_iff_toNat_le, Layout.toNat_unknowns hl]
    exact hl
  have htriplets : (List.range m.positions.toNat).flatMap m.blockTriplets = m.cells.map m.tripletAt :=
    hm.triplets_eq hmade
  rw [toSparse, htriplets]
  refine SparseMatrix.ofTriplets_eq_ok_iff.mpr ⟨⟨?_, ?_⟩, fun t ht => ?_, rfl⟩
  · rw [rows_eq_unknowns]
    exact hlimit hm.rows
  · rw [cols_eq_unknowns]
    exact hlimit hm.cols
  · obtain ⟨x, hx, rfl⟩ := List.mem_map.mp (List.mem_toArray.mp ht)
    obtain ⟨hrow, hcol⟩ := hm.toNat_tripletAt hmade hx
    rw [UInt64.lt_iff_toNat_lt, UInt64.lt_iff_toNat_lt, hrow, hcol]
    exact hm.cell_numbers hmade hx

/-- **Without repeated pairs the entries are at different places.** -/
theorem Counted.nodup_places (hnodup : ∀ c ∈ m.candidates, c.pairs.Nodup) :
    ((m.cells.map m.tripletAt).map fun t => (t.row, t.col)).Nodup := by
  rw [List.map_map]
  refine List.Nodup.map_on (fun x hx y hy hxy => ?_)
    (List.nodup_range.product (List.nodup_range.product List.nodup_range))
  obtain ⟨hrow, hcol⟩ := Prod.mk.inj hxy
  obtain ⟨hxrow, hxcol⟩ := hm.toNat_tripletAt hmade hx
  obtain ⟨hyrow, hycol⟩ := hm.toNat_tripletAt hmade hy
  have hrow := hxrow.symm.trans ((congrArg UInt64.toNat hrow).trans hyrow)
  have hcol := hxcol.symm.trans ((congrArg UInt64.toNat hcol).trans hycol)
  obtain ⟨hmu, hr, hc⟩ := mem_cells.mp hx
  obtain ⟨hnu, hs, hd⟩ := mem_cells.mp hy
  -- Equal places are those of the same position, and a position has one number.
  obtain ⟨p, hp, hposition, hpnumber⟩ := exists_position hmu
  obtain ⟨q, hq, hposition', hqnumber⟩ := exists_position hnu
  rw [hp, hq] at hrow hcol
  obtain ⟨rfl, hrs, hcd⟩ := hm.numbers_inj hmade hnodup hposition hposition' hr hs hc hd hrow hcol
  exact Prod.ext (hpnumber.symm.trans hqnumber) (Prod.ext hrs hcd)

end Counted

/-- **The sparse matrix of a banded one.** Let the counts of a matrix that has been made be exact. Then its
positions, rows and columns are counted by the products that they stand for. The sparse matrix exists, and has
exactly one entry for each position and pair of components: its value is that of the block at the position, and
its row and column, which are in range, are those of the components for the pairs that the digits of the
position choose. If no axis lists a pair twice, no two entries are at the same place. -/
theorem toSparse_spec [Scalar α] {candidates : List AxisCandidates} {rowDofs colDofs : List UInt64}
    {entries : Array α} {nr nc : Int} (h : make candidates rowDofs colDofs entries nr nc = .ok m)
    (hm : m.Counted) :
    m = ⟨candidates, rowDofs, colDofs, entries, nr.toNat, nc.toNat⟩ ∧
    m.positions.toNat = MultiIndex.product m.sizes ∧
    m.rows.toNat = MultiIndex.product m.rowLayout.dofs * m.rowComponents ∧
    m.cols.toNat = MultiIndex.product m.colLayout.dofs * m.colComponents ∧
    (let cells := List.range m.positions.toNat ×ˢ (List.range m.rowComponents ×ˢ List.range m.colComponents)
     m.toSparse = .ok ⟨m.rows, m.cols, (cells.map m.tripletAt).toArray⟩ ∧
     (∀ mu r c, (mu, r, c) ∈ cells →
      let pairs := pairsOn m.candidates (MultiIndex.multiIndex mu m.sizes)
      let t := m.tripletAt (mu, r, c)
      t.row.toNat = MultiIndex.linearIndex (pairs.map (·.1)) m.rowLayout.dofs * m.rowComponents + r ∧
      t.row < m.rows ∧
      t.col.toNat = MultiIndex.linearIndex (pairs.map (·.2)) m.colLayout.dofs * m.colComponents + c ∧
      t.col < m.cols ∧
      ∃ block, m.entry (UInt64.ofNat mu) = .ok block ∧ block[r * m.colComponents + c]? = some t.value) ∧
     ((∀ c ∈ m.candidates, c.pairs.Nodup) →
      (cells.map fun x => ((m.tripletAt x).row, (m.tripletAt x).col)).Nodup)) := by
  have hmade := made_of_make h
  obtain ⟨-, -, -, hparts⟩ := make_eq_ok_iff.mp h
  refine ⟨hparts, hm.toNat_positions hmade, ?_, ?_, ?_⟩
  · rw [rows_eq_unknowns]
    exact Layout.toNat_unknowns hm.rows
  · rw [cols_eq_unknowns]
    exact Layout.toNat_unknowns hm.cols
  · rw [hm.toNat_positions hmade]
    refine ⟨hm.toSparse_eq hmade, fun mu r c hx => ?_, fun hnodup => ?_⟩
    · obtain ⟨hrow, hcol⟩ := hm.toNat_tripletAt hmade hx
      obtain ⟨hrowlt, hcollt⟩ := hm.cell_numbers hmade hx
      obtain ⟨hmu, hr, hc⟩ := mem_cells.mp hx
      obtain ⟨hentry, hsize⟩ := hm.entry_eq hmade hmu
      have hs : r * m.colComponents + c < (m.blockOf mu).size := hsize ▸ mul_add_lt_of_lt hr hc 0
      refine ⟨hrow, ?_, hcol, ?_, _, hentry, ?_⟩
      · rwa [UInt64.lt_iff_toNat_lt, hrow]
      · rwa [UInt64.lt_iff_toNat_lt, hcol]
      · rw [tripletAt, Array.getD_eq_getD_getElem?, Array.getElem?_eq_getElem hs]
        rfl
    · have hplaces := hm.nodup_places hmade hnodup
      rwa [List.map_map] at hplaces

/-- Two row functions and one column function with two column components: the four entries of the two blocks
are at four places. -/
theorem toSparse_spec_twoBlocks :
    ∃ m : BandedMatrix ℚ, make [⟨#[0, 1], #[0, 0]⟩, ⟨#[0], #[0]⟩] [2, 1] [1, 1] #[5, 6, 7, 8] 1 2 = .ok m ∧
      m.toSparse = .ok ⟨2, 2, #[⟨0, 0, 5⟩, ⟨0, 1, 6⟩, ⟨1, 0, 7⟩, ⟨1, 1, 8⟩]⟩ ∧
      ((List.range 2 ×ˢ (List.range 1 ×ˢ List.range 2)).map fun x =>
        ((m.tripletAt x).row, (m.tripletAt x).col)).Nodup := by
  have hmake : make [⟨#[0, 1], #[0, 0]⟩, ⟨#[0], #[0]⟩] [2, 1] [1, 1] #[(5 : ℚ), 6, 7, 8] 1 2 =
      .ok ⟨[⟨#[0, 1], #[0, 0]⟩, ⟨#[0], #[0]⟩], [2, 1], [1, 1], #[5, 6, 7, 8], 1, 2⟩ := rfl
  have hcounted : (⟨[⟨#[0, 1], #[0, 0]⟩, ⟨#[0], #[0]⟩], [2, 1], [1, 1], #[5, 6, 7, 8], 1, 2⟩ :
      BandedMatrix ℚ).Counted :=
    ⟨rfl, rfl, by decide, by decide, by decide, by decide, by decide⟩
  obtain ⟨-, -, -, -, hsparse, -, hplaces⟩ := toSparse_spec hmake hcounted
  exact ⟨_, hmake, hsparse, hplaces (by decide)⟩

/-- Counts that wrap around. With 4294967296 functions on each of two axes there seem to be no rows, and the
entry of the first two functions is out of range. With 9223372036854775809 and 2 functions the first function
and the one with number 18446744073709551616 have the same row, though no pair is listed twice. With 16
positions of 1073741824 row and column components each no entries seem to be needed, and blocks are empty. -/
theorem toSparse_wrapped :
    (∃ m : BandedMatrix ℚ, make [⟨#[0], #[0]⟩, ⟨#[0], #[0]⟩] [4294967296, 4294967296]
        [4294967296, 4294967296] #[5 / 2] 1 1 = .ok m ∧
      m.rows ≤ SparseMatrix.storageLimit ∧ m.cols ≤ SparseMatrix.storageLimit ∧
      m.toSparse = .error (.index .csrRow 0 0)) ∧
    (∃ m : BandedMatrix ℚ, make [⟨#[0, 9223372036854775808], #[0, 0]⟩, ⟨#[0], #[0]⟩]
        [9223372036854775809, 2] [1, 1] #[5, 6] 1 1 = .ok m ∧
      m.rows ≤ SparseMatrix.storageLimit ∧ m.cols ≤ SparseMatrix.storageLimit ∧
      (∀ c ∈ m.candidates, c.pairs.Nodup) ∧ m.toSparse = .ok ⟨2, 1, #[⟨0, 0, 5⟩, ⟨0, 0, 6⟩]⟩) ∧
    (∃ m : BandedMatrix ℚ, make [⟨#[0, 0, 0, 0], #[0, 0, 0, 0]⟩, ⟨#[0, 0, 0, 0], #[0, 0, 0, 0]⟩]
        [1, 1] [1, 1] #[] 1073741824 1073741824 = .ok m ∧
      m.rows ≤ SparseMatrix.storageLimit ∧ m.cols ≤ SparseMatrix.storageLimit ∧
      m.positions = 16 ∧ m.entry 0 = .ok #[]) := by
  refine ⟨⟨_, rfl, by decide, by decide, ?_⟩, ⟨_, rfl, by decide, by decide, by decide, ?_⟩,
    ⟨_, rfl, by decide, by decide, ?_, ?_⟩⟩
  · rfl
  · rfl
  · rfl
  · decide

end BandedMatrix

end Galerkin
