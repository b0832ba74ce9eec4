import Galerkin.Proofs.Basis.Supports
import Galerkin.Proofs.Index.Linear

/-! # First neighbours of tensor-product functions

The first neighbour of a tensor-product function has the first neighbour on every axis. Its number is up to
that of the function if the function does not vanish. A function that vanishes comes before its first
neighbour, unless an earlier axis has a neighbour before the function.

* **`KnotVector.starts`** — first neighbours on all axes;
* **`KnotVector.SupportedOnAxes`** — functions that do not vanish;
* **`KnotVector.forall_supportedOnAxes_iff`** — no function vanishes at all;
* **`KnotVector.supportedOnAxes_of_le_iff`** — no function vanishes whose first neighbour has a number up
  to its own. -/

namespace Galerkin.KnotVector

variable {α : Type} [Scalar α] {bases : List (KnotVector α)} {index : List Nat}

/-! ## (1) Functions in range -/

/-- The numbers of functions on all axes. -/
def extents (bases : List (KnotVector α)) : List Nat := bases.map (·.dofs)

/-- The first neighbours of a tensor-product function. -/
def starts (bases : List (KnotVector α)) (index : List Nat) : List Nat :=
  List.zipWith start bases index

/-- An index of a function on every axis. -/
def InRange (bases : List (KnotVector α)) (index : List Nat) : Prop :=
  List.Forall₂ (fun v i => i < v.dofs) bases index

/-- A tensor-product function that vanishes on no axis. -/
def SupportedOnAxes (bases : List (KnotVector α)) (index : List Nat) : Prop :=
  List.Forall₂ Supported bases index

/-- An index in range is a cell of the extents. -/
theorem InRange.forall₂_lt (h : InRange bases index) : List.Forall₂ (· < ·) index (extents bases) :=
  List.forall₂_map_right_iff.mpr h.flip

/-- There are as many first neighbours as axes. -/
theorem InRange.length_starts (h : InRange bases index) :
    (starts bases index).length = (extents bases).length := by
  rw [starts, extents, List.length_zipWith, List.length_map, ← h.length_eq, Nat.min_self]

/-- The number of the first neighbour, axis by axis. -/
theorem linearIndex_starts_cons (h : InRange bases index) (v : KnotVector α) (i : Nat) :
    MultiIndex.linearIndex (starts (v :: bases) (i :: index)) (extents (v :: bases)) =
      v.start i * MultiIndex.product (extents bases) +
        MultiIndex.linearIndex (starts bases index) (extents bases) :=
  MultiIndex.linearIndex_cons h.length_starts _ _

/-- The number of a function, axis by axis. -/
theorem linearIndex_cons (h : InRange bases index) (v : KnotVector α) (i : Nat) :
    MultiIndex.linearIndex (i :: index) (extents (v :: bases)) =
      i * MultiIndex.product (extents bases) + MultiIndex.linearIndex index (extents bases) :=
  MultiIndex.linearIndex_cons h.forall₂_lt.length_eq _ _

variable [LinearOrder α] [OrderedScalar α]

/-! ## (2) Functions that vanish -/

/-- There is a function that vanishes on no axis. -/
theorem exists_supportedOnAxes (bases : List (KnotVector α)) :
    ∃ index, InRange bases index ∧ SupportedOnAxes bases index := by
  induction bases with
  | nil => exact ⟨[], .nil, .nil⟩
  | cons v bases ih =>
    obtain ⟨index, hin, hsupported⟩ := ih
    obtain ⟨f, hf, hfs⟩ := v.exists_supported
    exact ⟨f :: index, .cons hf hin, .cons hfs hsupported⟩

/-- The first neighbour of a function that vanishes on no axis has a number up to that of the function. -/
theorem linearIndex_starts_le (hin : InRange bases index) (h : SupportedOnAxes bases index) :
    MultiIndex.linearIndex (starts bases index) (extents bases) ≤
      MultiIndex.linearIndex index (extents bases) := by
  induction hin with
  | nil => exact Nat.le_refl _
  | @cons v i bases index hi hin ih =>
    obtain ⟨hsupported, hrest⟩ := List.forall₂_cons.mp h
    have hle : v.start i ≤ i := not_lt.mp fun hlt => (v.lt_start_iff hi).mp hlt hsupported
    rw [linearIndex_starts_cons hin, linearIndex_cons hin]
    exact Nat.add_le_add (Nat.mul_le_mul_right _ hle) (ih hrest)

/-- **A function that vanishes on one axis only** has its first neighbour less than a whole box of
functions later. -/
theorem exists_not_supportedOnAxes {v : KnotVector α} (hv : v ∈ bases) {i : Nat} (hi : i < v.dofs)
    (hvanishes : ¬ v.Supported i) : ∃ index, InRange bases index ∧ ¬ SupportedOnAxes bases index ∧
      MultiIndex.linearIndex (starts bases index) (extents bases) ≤
        MultiIndex.linearIndex index (extents bases) + MultiIndex.product (extents bases) := by
  induction bases with
  | nil => cases hv
  | cons w bases ih =>
    rcases List.mem_cons.mp hv with rfl | hv
    · obtain ⟨index, hin, hsupported⟩ := exists_supportedOnAxes bases
      refine ⟨i :: index, .cons hi hin, fun h => hvanishes (List.forall₂_cons.mp h).1, ?_⟩
      have hle := linearIndex_starts_le hin hsupported
      have hstart : v.start i * MultiIndex.product (extents bases) ≤
          v.dofs * MultiIndex.product (extents bases) := Nat.mul_le_mul_right _ (v.start_le i)
      have hproduct : MultiIndex.product (extents (v :: bases)) =
          v.dofs * MultiIndex.product (extents bases) := MultiIndex.product_cons _ _
      rw [linearIndex_starts_cons hin, linearIndex_cons hin, hproduct]
      omega
    · obtain ⟨index, hin, hsome, hle⟩ := ih hv
      obtain ⟨f, hf, hfs⟩ := w.exists_supported
      refine ⟨f :: index, .cons hf hin, fun h => hsome (List.forall₂_cons.mp h).2, ?_⟩
      have hstart : w.start f * MultiIndex.product (extents bases) ≤
          f * MultiIndex.product (extents bases) :=
        Nat.mul_le_mul_right _ (not_lt.mp fun hlt => (w.lt_start_iff hf).mp hlt hfs)
      have hproduct : MultiIndex.product (extents (w :: bases)) =
          w.dofs * MultiIndex.product (extents bases) := MultiIndex.product_cons _ _
      have hone : 1 * MultiIndex.product (extents bases) ≤
          w.dofs * MultiIndex.product (extents bases) := Nat.mul_le_mul_right _ (by omega)
      rw [linearIndex_starts_cons hin, linearIndex_cons hin, hproduct]
      omega

/-- **No tensor-product function vanishes** if no function of an axis does. -/
theorem forall_supportedOnAxes_iff :
    (∀ index, InRange bases index → SupportedOnAxes bases index) ↔ ∀ v ∈ bases, v.AllSupported := by
  constructor
  · intro h v hv i hi
    by_contra hvanishes
    obtain ⟨index, hin, hsome, -⟩ := exists_not_supportedOnAxes hv hi hvanishes
    exact hsome (h index hin)
  · intro h index hin
    unfold SupportedOnAxes
    induction hin with
    | nil => exact .nil
    | @cons v i bases index hi _ ih =>
      obtain ⟨hv, hrest⟩ := List.forall_mem_cons.mp h
      exact .cons (hv i hi) (ih hrest)

/-- **No tensor-product function vanishes whose first neighbour has a number up to its own,** if behind an
axis of positive degree no function of an axis vanishes. -/
theorem supportedOnAxes_of_le_iff :
    (∀ index, InRange bases index →
      MultiIndex.linearIndex (starts bases index) (extents bases) ≤
        MultiIndex.linearIndex index (extents bases) → SupportedOnAxes bases index) ↔
      bases.Pairwise fun v w => 0 < v.degree → w.AllSupported := by
  constructor
  · intro h
    induction bases with
    | nil => exact .nil
    | cons v bases ih =>
      refine List.pairwise_cons.mpr ⟨fun w hw hdegree i hi => ?_, ih fun index hin hle => ?_⟩
      · -- A neighbour before the function on the first axis makes up for later axes.
        by_contra hvanishes
        obtain ⟨index, hin, hsome, hle⟩ := exists_not_supportedOnAxes hw hi hvanishes
        obtain ⟨f, hf, -, hstart⟩ := v.exists_start_lt hdegree
        refine hsome (List.forall₂_cons.mp (h (f :: index) (.cons hf hin) ?_)).2
        have hbox : (v.start f + 1) * MultiIndex.product (extents bases) ≤
            f * MultiIndex.product (extents bases) := Nat.mul_le_mul_right _ hstart
        rw [Nat.add_mul, Nat.one_mul] at hbox
        rw [linearIndex_starts_cons hin, linearIndex_cons hin]
        omega
      · obtain ⟨f, hf, hfs⟩ := v.exists_supported
        have hstart : v.start f ≤ f := not_lt.mp fun hlt => (v.lt_start_iff hf).mp hlt hfs
        refine (List.forall₂_cons.mp (h (f :: index) (.cons hf hin) ?_)).2
        rw [linearIndex_starts_cons hin, linearIndex_cons hin]
        exact Nat.add_le_add (Nat.mul_le_mul_right _ hstart) hle
  · intro hpairs index hin hle
    unfold SupportedOnAxes
    induction hin with
    | nil => exact .nil
    | @cons v i bases index hi hin ih =>
      obtain ⟨hfirst, hpairs⟩ := List.pairwise_cons.mp hpairs
      rw [linearIndex_starts_cons hin, linearIndex_cons hin] at hle
      have hlt := MultiIndex.linearIndex_lt (InRange.forall₂_lt hin)
      have hsupported : v.Supported i := by
        by_contra hvanishes
        have hbox : (i + 1) * MultiIndex.product (extents bases) ≤
            v.start i * MultiIndex.product (extents bases) :=
          Nat.mul_le_mul_right _ ((v.lt_start_iff hi).mpr hvanishes)
        rw [Nat.add_mul, Nat.one_mul] at hbox
        omega
      refine .cons hsupported ?_
      rcases Nat.eq_zero_or_pos v.degree with hzero | hdegree
      · rw [v.start_eq_of_degree_zero hzero hi] at hle
        exact ih hpairs (by omega)
      · exact forall_supportedOnAxes_iff.mpr (fun w hw => hfirst w hw hdegree) index hin

end Galerkin.KnotVector
