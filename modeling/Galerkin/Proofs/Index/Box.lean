import Galerkin.Index.Grid
import Galerkin.Index.Interval
import Mathlib.Data.List.Forall2
import Mathlib.Data.List.Nodup
import Mathlib.Data.List.Pairwise

/-! # Cells of a box

A box is a list of intervals, one per axis. Its cells in lexicographic order are what a nested loop over
the axes visits, and what the odometer visits that advances the last axis first.

* **`boxCells`** — the cells, and `mem_boxCells`: those with every index in its interval;
* **`MultiIndex.walk_eq_boxCells`** — a walk visits its start and the cells after it;
* **`gridNodes_eq_boxCells`** — the nodes of a grid are the cells of the box of its extents. -/

namespace Galerkin

/-! ## (1) Cells -/

/-- The indices of an interval increase. -/
theorem Interval.indices_pairwise (s : Interval) : s.indices.Pairwise (· < ·) :=
  List.pairwise_lt_range'

/-- **The cells of a box in lexicographic order.** -/
def boxCells : List Interval → List (List Nat)
  | [] => [[]]
  | s :: box => s.indices.flatMap fun i => (boxCells box).map (i :: ·)

/-- **A cell has every index in the interval of its axis.** -/
theorem mem_boxCells {box : List Interval} {index : List Nat} :
    index ∈ boxCells box ↔ List.Forall₂ (fun i s => s.first ≤ i ∧ i < s.last) index box := by
  induction box generalizing index with
  | nil => rw [boxCells, List.mem_singleton, List.forall₂_nil_right_iff]
  | cons s box ih =>
    rw [boxCells, List.mem_flatMap, List.forall₂_cons_right_iff]
    constructor
    · rintro ⟨i, hi, h⟩
      obtain ⟨rest, hrest, rfl⟩ := List.mem_map.mp h
      exact ⟨i, rest, Interval.mem_indices.mp hi, ih.mp hrest, rfl⟩
    · rintro ⟨i, rest, hi, hrest, rfl⟩
      exact ⟨i, Interval.mem_indices.mpr hi, List.mem_map_of_mem (ih.mpr hrest)⟩

/-- A box with an empty interval has no cells. -/
theorem boxCells_eq_nil {box : List Interval} (h : ∃ s ∈ box, s.last ≤ s.first) :
    boxCells box = [] := by
  obtain ⟨s, hs, hempty⟩ := h
  rw [List.eq_nil_iff_forall_not_mem]
  intro index hindex
  have hall := mem_boxCells.mp hindex
  obtain ⟨k, hk, rfl⟩ := List.getElem_of_mem hs
  have hlt := hall.get (hall.length_eq ▸ hk) hk
  simp only [List.get_eq_getElem] at hlt
  omega

/-- The running product of extents is a multiple of their product. -/
theorem MultiIndex.foldl_mul (extents : List Nat) (n : Nat) :
    extents.foldl (· * ·) n = n * MultiIndex.product extents := by
  unfold MultiIndex.product
  induction extents generalizing n with
  | nil => rw [List.foldl_nil, List.foldl_nil, Nat.mul_one]
  | cons e extents ih =>
    rw [List.foldl_cons, List.foldl_cons, ih, ih (1 * e), Nat.one_mul, Nat.mul_assoc]

/-- The product of extents, axis by axis. -/
theorem MultiIndex.product_cons (e : Nat) (extents : List Nat) :
    MultiIndex.product (e :: extents) = e * MultiIndex.product extents := by
  rw [MultiIndex.product, List.foldl_cons, MultiIndex.foldl_mul, Nat.one_mul]

/-- The number of cells is the product of the sizes of the intervals. -/
theorem length_boxCells (box : List Interval) :
    (boxCells box).length = MultiIndex.product (box.map Interval.size) := by
  induction box with
  | nil => rfl
  | cons s box ih =>
    rw [List.map_cons, MultiIndex.product_cons, boxCells, List.length_flatMap]
    simp only [List.length_map, ih, List.map_const', List.sum_replicate_nat]
    rw [Interval.indices, List.length_range']

/-- **No cell occurs twice.** -/
theorem nodup_boxCells (box : List Interval) : (boxCells box).Nodup := by
  induction box with
  | nil => exact List.nodup_singleton _
  | cons s box ih =>
    rw [boxCells, List.nodup_flatMap]
    refine ⟨fun i _ => ih.map List.cons_injective, ?_⟩
    refine (Interval.indices_pairwise s).imp fun hlt => ?_
    refine List.disjoint_left.mpr ?_
    intro index hi hj
    obtain ⟨_, -, rfl⟩ := List.mem_map.mp hi
    obtain ⟨_, -, heq⟩ := List.mem_map.mp hj
    exact Nat.ne_of_gt hlt (List.cons.inj heq).1

/-- A cell has one index per axis. -/
theorem length_of_mem_boxCells {box : List Interval} {index : List Nat} (h : index ∈ boxCells box) :
    index.length = box.length := (mem_boxCells.mp h).length_eq

/-! ## (2) Walks -/

namespace MultiIndex

/-- The box a walk visits: the start itself is visited even where an axis has no cells. -/
def walkBox (start stop : List Nat) : List Interval :=
  List.zipWith (fun s e => ⟨s, max (s + 1) e⟩) start stop

/-- The cells of a walk that come after a cell. -/
def after : (index start stop : List Nat) → List (List Nat)
  | i :: index, _ :: start, e :: stop =>
    (after index start stop).map (i :: ·) ++
      (Interval.indices ⟨i + 1, e⟩).flatMap fun j => (boxCells (walkBox start stop)).map (j :: ·)
  | _, _, _ => []

/-- A walk visits its start first. -/
theorem boxCells_walkBox {start stop : List Nat} (h : start.length = stop.length) :
    boxCells (walkBox start stop) = start :: after start start stop := by
  induction start generalizing stop with
  | nil =>
    obtain rfl := List.eq_nil_of_length_eq_zero h.symm
    rfl
  | cons s start ih =>
    cases stop with
    | nil => cases h
    | cons e stop =>
      have hrest := ih (Nat.succ.inj h)
      have hindices : Interval.indices ⟨s, max (s + 1) e⟩ = s :: Interval.indices ⟨s + 1, e⟩ := by
        unfold Interval.indices Interval.size
        have hsize : max (s + 1) e - s = (e - (s + 1)) + 1 := by omega
        simp only [hsize, List.range'_succ]
      rw [walkBox, List.zipWith_cons_cons, boxCells, hindices, List.flatMap_cons, after]
      rw [walkBox] at hrest ⊢
      rw [hrest, List.map_cons, List.cons_append]

/-- The first interval after an index, if it has not reached the end. -/
theorem indices_after {i e : Nat} :
    Interval.indices ⟨i + 1, e⟩ =
      if i + 1 < e then (i + 1) :: Interval.indices ⟨i + 1 + 1, e⟩ else [] := by
  unfold Interval.indices Interval.size
  split
  · rename_i h
    have hsize : e - (i + 1) = (e - (i + 1 + 1)) + 1 := by omega
    simp only [hsize, List.range'_succ]
  · have hsize : e - (i + 1) = 0 := by omega
    simp only [hsize, List.range'_zero]

/-- **Advancing leads to the next cell of the walk,** and back to the start after the last one. -/
theorem advance_spec : ∀ {index start stop : List Nat}, index.length = start.length →
    start.length = stop.length →
    (after index start stop = [] ∧ advance index start stop = (false, start)) ∨
      ∃ next rest, after index start stop = next :: rest ∧
        advance index start stop = (true, next) ∧ after next start stop = rest ∧
        next.length = start.length := by
  intro index
  induction index with
  | nil =>
    intro start stop h h'
    obtain rfl := List.eq_nil_of_length_eq_zero h.symm
    obtain rfl := List.eq_nil_of_length_eq_zero h'.symm
    exact .inl ⟨rfl, rfl⟩
  | cons i index ih =>
    intro start stop h h'
    cases start with
    | nil => cases h
    | cons s start =>
      cases stop with
      | nil => cases h'
      | cons e stop =>
        rcases ih (Nat.succ.inj h) (Nat.succ.inj h') with ⟨hnil, hadv⟩ | ⟨next, rest, hafter, hadv,
          hrest, hlen⟩
        · -- The later axes are exhausted, so this one moves on.
          rw [after, advance, hnil, hadv, indices_after]
          by_cases hlt : i + 1 < e
          · refine .inr ⟨(i + 1) :: start, (after start start stop).map ((i + 1) :: ·) ++
              (Interval.indices ⟨i + 1 + 1, e⟩).flatMap fun j =>
                (boxCells (walkBox start stop)).map (j :: ·), ?_, ?_, ?_, rfl⟩
            · rw [if_pos hlt, List.flatMap_cons, boxCells_walkBox (Nat.succ.inj h')]
              rfl
            · simp only [if_pos hlt]
            · rw [after]
          · refine .inl ⟨?_, ?_⟩
            · rw [if_neg hlt]
              rfl
            · simp only [if_neg hlt]
        · refine .inr ⟨i :: next, _, ?_, ?_, rfl, congrArg Nat.succ hlen⟩
          · rw [after, hafter, List.map_cons, List.cons_append, after, hrest]
          · rw [advance, hadv]

/-- **A walk visits a cell and the cells after it,** as far as it goes. -/
theorem walkFrom_eq_take {start stop : List Nat} (h' : start.length = stop.length) (fuel : Nat) :
    ∀ {index : List Nat}, index.length = start.length →
      walkFrom start stop fuel index = (index :: after index start stop).take fuel := by
  induction fuel with
  | zero => intro index _; rw [walkFrom, List.take_zero]
  | succ fuel ih =>
    intro index h
    rw [walkFrom, List.take_succ_cons]
    rcases advance_spec h h' with ⟨hnil, hadv⟩ | ⟨next, rest, hafter, hadv, hrest, hlen⟩
    · rw [hadv, hnil, List.take_nil]
    · rw [hadv, hafter]
      simp only
      rw [ih hlen, hrest]

/-- **A walk visits the cells of its box.** -/
theorem walk_eq_boxCells {start stop : List Nat} (h : start.length = stop.length) :
    walk start stop = boxCells (walkBox start stop) := by
  have hlength : walkLength start stop = (boxCells (walkBox start stop)).length := by
    have hsize : (fun s e => max 1 (e - s)) = fun s e => Interval.size ⟨s, max (s + 1) e⟩ := by
      funext s e
      change max 1 (e - s) = max (s + 1) e - s
      omega
    rw [length_boxCells, walkLength, walkBox, List.map_zipWith, hsize]
  rw [walk, hlength, walkFrom_eq_take h _ rfl, boxCells_walkBox h, List.take_length]

/-- **A walk begins with its start.** -/
theorem walk_eq_cons {start stop : List Nat} (h : start.length = stop.length) :
    ∃ rest, walk start stop = start :: rest :=
  ⟨after start start stop, by rw [walk_eq_boxCells h, boxCells_walkBox h]⟩

end MultiIndex

/-- The number of nodes of a grid with axes. -/
theorem nodeCount_eq_product {shape : List Nat} (h : shape ≠ []) :
    nodeCount shape = MultiIndex.product shape :=
  if_neg (mt List.isEmpty_iff.mp h)

/-- A grid has as many nodes as the box of its extents has cells. -/
theorem nodeCount_eq_length {shape : List Nat} (h : shape ≠ []) :
    nodeCount shape = (boxCells (shape.map fun n => ⟨0, n⟩)).length := by
  rw [nodeCount_eq_product h, length_boxCells, List.map_map]
  refine congrArg MultiIndex.product ?_
  conv_lhs => rw [← List.map_id shape]
  exact List.map_congr_left fun n _ => (Nat.sub_zero n).symm

/-- **The nodes of a grid are the cells of its extents,** in storage order. -/
theorem gridNodes_eq_boxCells {shape : List Nat} (h : shape ≠ []) :
    gridNodes shape = boxCells (shape.map fun n => ⟨0, n⟩) := by
  have hcount := nodeCount_eq_length h
  by_cases hzero : 0 ∈ shape
  · -- An axis without nodes leaves no node at all.
    have hnil : boxCells (shape.map fun n => ⟨0, n⟩) = [] :=
      boxCells_eq_nil ⟨⟨0, 0⟩, List.mem_map_of_mem hzero, Nat.le_refl _⟩
    rw [gridNodes, gridWalk, hcount, hnil]
    rfl
  · have hbox : MultiIndex.walkBox (shape.map fun _ => 0) shape = shape.map fun n => ⟨0, n⟩ := by
      rw [MultiIndex.walkBox, List.zipWith_map_left, List.zipWith_self]
      refine List.map_congr_left fun n hn => ?_
      have hpos : 0 < n := Nat.pos_of_ne_zero fun h0 => hzero (h0 ▸ hn)
      rw [Nat.max_eq_right hpos]
    rw [gridNodes, gridWalk, hcount, MultiIndex.walkFrom_eq_take (List.length_map _) _ rfl, ← hbox,
      MultiIndex.boxCells_walkBox (List.length_map _), List.take_length]

/-- **The nodes of a grid have every index below its extent.** -/
theorem mem_gridNodes {shape index : List Nat} (h : shape ≠ []) :
    index ∈ gridNodes shape ↔ List.Forall₂ (· < ·) index shape := by
  rw [gridNodes_eq_boxCells h, mem_boxCells, List.forall₂_map_right_iff]
  simp only [Nat.zero_le, true_and]

/-- There are as many nodes as they are counted. -/
theorem length_gridNodes {shape : List Nat} (h : shape ≠ []) :
    (gridNodes shape).length = nodeCount shape := by
  rw [gridNodes_eq_boxCells h, nodeCount_eq_length h]

/-- A grid with nodes on every axis has its first one. -/
theorem origin_mem_gridNodes {shape : List Nat} (h : shape ≠ []) (hpos : ∀ n ∈ shape, 0 < n) :
    (shape.map fun _ => 0) ∈ gridNodes shape := by
  rw [mem_gridNodes h, List.forall₂_map_left_iff, List.forall₂_same]
  exact hpos

/-- A grid with nodes on every axis has a node. -/
theorem nodeCount_pos {shape : List Nat} (h : shape ≠ []) (hpos : ∀ n ∈ shape, 0 < n) :
    0 < nodeCount shape := by
  rw [← length_gridNodes h]
  exact List.length_pos_of_mem (origin_mem_gridNodes h hpos)

end Galerkin
