import Galerkin.Proofs.Assembly.Banded
import Galerkin.Proofs.Assembly.Entries
import Galerkin.Proofs.Index.Words

/-! # Banded matrices as sparse ones

A banded matrix is turned into a sparse one position by position. As long as positions can be counted in
words, the number of a position leads back to its pairs, and the entries are those of the blocks of all
positions in storage order.

* **`BandedMatrix.make_eq_ok_iff`** — the parts that make a matrix;
* **`BandedMatrix.globalIndex_position`** — row and column of a component at a position;
* **`Assembler.triplets_bandedMatrix`** — the entries of all positions, block by block. -/

namespace Galerkin

variable {α : Type} {candidates : List AxisCandidates} {p : List Nat}

/-! ## (1) Matrices from parts -/

namespace BandedMatrix

/-- The candidates of an axis are accepted if they pair up and name functions. -/
theorem checkAxis_eq_ok_iff {axis : Nat} {c : AxisCandidates} {rows cols : UInt64} :
    checkAxis axis c rows cols = .ok () ↔ c.test.size = c.trial.size ∧
      ∀ y ∈ c.pairs, UInt64.ofNat y.1 < rows ∧ UInt64.ofNat y.2 < cols := by
  rw [checkAxis, require_bind_eq_ok_iff, beq_iff_eq, forM_eq_ok_iff]
  refine and_congr_right fun _ => forall₂_congr fun y _ => ?_
  rw [bind_eq_ok_iff, checkWord_eq_ok_iff]
  exact ⟨fun ⟨_, hrow, hcol⟩ => ⟨checkWord_eq_ok_iff.mp hrow, hcol⟩,
    fun ⟨hrow, hcol⟩ => ⟨(), checkWord_eq_ok_iff.mpr hrow, hcol⟩⟩

/-- **The parts that make a matrix:** there are components, the candidates pair up and name functions, and
modulo the number of words there is a block of entries for each position. -/
theorem make_eq_ok_iff {rowDofs colDofs : List UInt64} {entries : Array α} {nr nc : Int} {m : BandedMatrix α} :
    make candidates rowDofs colDofs entries nr nc = .ok m ↔ (1 ≤ nr ∧ 1 ≤ nc) ∧
      (∀ x ∈ candidates.zip (rowDofs.zip colDofs), x.1.test.size = x.1.trial.size ∧
        ∀ y ∈ x.1.pairs, UInt64.ofNat y.1 < x.2.1 ∧ UInt64.ofNat y.2 < x.2.2) ∧
      UInt64.ofNat entries.size =
        UInt64.ofNat (MultiIndex.product (candidates.map (·.size)) * (nr.toNat * nc.toNat)) ∧
      m = ⟨candidates, rowDofs, colDofs, entries, nr.toNat, nc.toNat⟩ := by
  have hcount : (⟨candidates, rowDofs, colDofs, entries, nr.toNat, nc.toNat⟩ : BandedMatrix α).positions *
      UInt64.ofNat nr.toNat * UInt64.ofNat nc.toNat =
        UInt64.ofNat (MultiIndex.product (candidates.map (·.size)) * (nr.toNat * nc.toNat)) := by
    rw [UInt64.ofNat_mul, UInt64.ofNat_mul, ← MultiIndex.product_ofNat, List.map_map, UInt64.mul_assoc]
    rfl
  have haxes : ((candidates.zip (rowDofs.zip colDofs)).zipIdx.forM fun x =>
      checkAxis x.2 x.1.1 x.1.2.1 x.1.2.2) = .ok () ↔ ∀ x ∈ candidates.zip (rowDofs.zip colDofs),
        x.1.test.size = x.1.trial.size ∧
          ∀ y ∈ x.1.pairs, UInt64.ofNat y.1 < x.2.1 ∧ UInt64.ofNat y.2 < x.2.2 := by
    conv_rhs => rw [← List.zipIdx_map_fst 0 (candidates.zip (rowDofs.zip colDofs)), List.forall_mem_map]
    rw [forM_eq_ok_iff]
    exact forall₂_congr fun x _ => checkAxis_eq_ok_iff
  unfold make
  rw [require_bind_eq_ok_iff, Bool.and_eq_true, decide_eq_true_eq, decide_eq_true_eq, bind_eq_ok_iff]
  refine and_congr_right fun _ => ?_
  constructor
  · rintro ⟨⟨⟩, hchecked, h⟩
    obtain ⟨hsize, hm⟩ := require_bind_eq_ok_iff.mp h
    exact ⟨haxes.mp hchecked, (beq_iff_eq.mp hsize).trans hcount, (Except.ok.inj hm).symm⟩
  · rintro ⟨hchecked, hsize, rfl⟩
    exact ⟨(), haxes.mpr hchecked, require_bind_eq_ok_iff.mpr ⟨beq_iff_eq.mpr (hsize.trans hcount.symm), rfl⟩⟩

/-- A block of entries for each position is enough. -/
theorem make_eq_ok {rowDofs colDofs : List UInt64} {entries : Array α} {nr nc : Nat} (hr : 0 < nr)
    (hc : 0 < nc)
    (haxes : ∀ x ∈ candidates.zip (rowDofs.zip colDofs), x.1.test.size = x.1.trial.size ∧
      ∀ y ∈ x.1.pairs, UInt64.ofNat y.1 < x.2.1 ∧ UInt64.ofNat y.2 < x.2.2)
    (hsize : entries.size = MultiIndex.product (candidates.map (·.size)) * (nr * nc)) :
    make candidates rowDofs colDofs entries nr nc =
      .ok ⟨candidates, rowDofs, colDofs, entries, nr, nc⟩ :=
  make_eq_ok_iff.mpr ⟨⟨Int.ofNat_lt.mpr hr, Int.ofNat_lt.mpr hc⟩, haxes, congrArg UInt64.ofNat hsize, rfl⟩

/-! ## (2) Positions -/

variable {m : BandedMatrix α}

/-- The positions as a word. -/
theorem positions_eq : m.positions = UInt64.ofNat (MultiIndex.product (m.candidates.map (·.size))) := by
  rw [positions, positionExtents, ← MultiIndex.product_ofNat, List.map_map]
  rfl

/-- **The pairs of the number of a position,** if positions can be counted in words. -/
theorem pairsAt_position (hp : IsPosition m.candidates p)
    (hwords : MultiIndex.product (m.candidates.map (·.size)) < UInt64.size) :
    m.pairsAt (UInt64.ofNat (MultiIndex.linearIndex p (m.candidates.map (·.size)))) =
      pairsOn m.candidates p := by
  have hcells := isPosition_iff.mp hp
  have hextents : m.positionExtents = (m.candidates.map (·.size)).map UInt64.ofNat := by
    rw [List.map_map]
    rfl
  have hround := MultiIndex.map_toNat_ofNat hcells hwords
  rw [pairsAt, hextents, MultiIndex.multiIndex_word hcells hwords, pairsOn]
  conv_rhs => rw [← hround]
  exact List.zipWith_map_right.symm

/-- The entries of all positions with their rows and columns. -/
def triplets [Scalar α] (m : BandedMatrix α) : List (Triplet α) :=
  (List.range m.positions.toNat).flatMap m.blockTriplets

/-- **Row and column of a component** at a position. -/
theorem globalIndex_position (hp : IsPosition m.candidates p)
    (hwords : MultiIndex.product (m.candidates.map (·.size)) < UInt64.size) {rowDofs colDofs : List Nat}
    (hrow : m.rowDofs = rowDofs.map UInt64.ofNat) (hcol : m.colDofs = colDofs.map UInt64.ofNat)
    (r c : Nat) :
    m.globalIndex (UInt64.ofNat (MultiIndex.linearIndex p (m.candidates.map (·.size)))) r c =
      (UInt64.ofNat (MultiIndex.linearIndex ((pairsOn m.candidates p).map (·.1)) rowDofs *
          m.rowComponents + r),
        UInt64.ofNat (MultiIndex.linearIndex ((pairsOn m.candidates p).map (·.2)) colDofs *
          m.colComponents + c)) := by
  -- Rows and columns are the same expression of the pairs, for their two projections.
  have hnumber : ∀ (f : Nat × Nat → Nat) (dofs : List Nat) (n s : Nat),
      MultiIndex.linearIndex ((pairsOn m.candidates p).map fun x => UInt64.ofNat (f x))
          (dofs.map UInt64.ofNat) * UInt64.ofNat n + UInt64.ofInt s =
        UInt64.ofNat (MultiIndex.linearIndex ((pairsOn m.candidates p).map f) dofs * n + s) := by
    intro f dofs n s
    rw [UInt64.ofNat_add, UInt64.ofNat_mul, ← MultiIndex.linearIndex_ofNat, List.map_map, ofInt_natCast]
    rfl
  rw [globalIndex, pairsAt_position hp hwords, hrow, hcol]
  exact Prod.ext (hnumber Prod.fst _ _ _) (hnumber Prod.snd _ _ _)

end BandedMatrix

/-! ## (3) Entries -/

namespace Assembler

variable [Scalar α] {a : Assembler α}

/-- The matrix of some entries over some candidates. -/
def bandedMatrix (a : Assembler α) (candidates : List AxisCandidates) (entries : Array α) :
    BandedMatrix α :=
  ⟨candidates, a.test.words, a.trial.words, entries, a.test.components, a.trial.components⟩

/-- **The entries of a banded matrix** are those of the blocks of all positions, in storage order. -/
theorem triplets_bandedMatrix (hne : candidates ≠ [])
    (hwords : MultiIndex.product (candidates.map (·.size)) < UInt64.size) {entries : Array α}
    {block : (test trial : List Nat) → Array α}
    (hentries : ∀ p, IsPosition candidates p → ∀ s < a.test.components * a.trial.components,
      entries.getD (a.entryNumber candidates p s) Scalar.zero =
        (blockAt candidates block p).getD s Scalar.zero) :
    (a.bandedMatrix candidates entries).triplets =
      (gridNodes (candidates.map (·.size))).flatMap fun p =>
        a.blockEntries ((pairsOn candidates p).map (·.1)) ((pairsOn candidates p).map (·.2))
          (blockAt candidates block p) := by
  have hsizes : candidates.map (·.size) ≠ [] := fun h => hne (List.map_eq_nil_iff.mp h)
  have hcount : (a.bandedMatrix candidates entries).positions.toNat =
      MultiIndex.product (candidates.map (·.size)) := by
    rw [BandedMatrix.positions_eq]
    exact UInt64.toNat_ofNat_of_lt' hwords
  -- The numbers of the positions are those of the cells of a box, in order.
  rw [BandedMatrix.triplets, hcount, ← MultiIndex.map_linearIndex_boxCells,
    ← gridNodes_eq_boxCells hsizes, List.flatMap_map]
  refine List.flatMap_congr fun p hp => ?_
  have hp := isPosition_iff.mpr ((mem_gridNodes hsizes).mp hp)
  refine List.flatMap_congr fun r hr => List.map_congr_left fun c hc => ?_
  have hr : r < a.test.components := List.mem_range.mp hr
  have hc : c < a.trial.components := List.mem_range.mp hc
  have hvalue := hentries p hp _ (mul_add_lt_of_lt hr hc 0)
  rw [entryNumber, ← Nat.add_assoc] at hvalue
  have hposition := BandedMatrix.globalIndex_position (m := a.bandedMatrix candidates entries) hp hwords
    rfl rfl r c
  exact (congrArg (fun x : GlobalIndex × GlobalIndex => (⟨x.1, x.2, _⟩ : Triplet α)) hposition).trans
    (congrArg _ hvalue)

end Assembler

end Galerkin
