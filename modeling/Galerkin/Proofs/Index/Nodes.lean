import Galerkin.Proofs.Index.Words
import Mathlib.Algebra.BigOperators.Ring.List
import Mathlib.Algebra.Ring.Nat
import Mathlib.Data.UInt

/-! # Numbers of grid nodes

The nodes of a grid are numbered from zero on, and the digits of a number in the extents of the grid are the
indices of its node. An odometer that counts nodes shows these digits one after the other, and an array keeps the
components of a node where the distances along the axes lead.

* **`MultiIndex.advance_eq`** — adding one to a number advances its digits;
* **`nodeCalls`** — the calls of a loop over a grid, which counts nodes and advances an odometer;
* **`gridWalk_eq_map`** — the nodes of a grid are the digits of the numbers below a count;
* **`GridArray.sum_stride`** — the position of a node is where the distances lead;
* **`boxCells_eq_map_boxNumbers`** — the cells of a box are the digits of its numbers. -/

namespace Galerkin

namespace MultiIndex

/-! ## (1) Digits -/

/-- **The digits of a number of a cell** are the indices of the cell with this number. -/
theorem multiIndex_spec {n : Nat} {extents : List Nat} (hn : n < product extents) :
    List.Forall₂ (· < ·) (multiIndex n extents) extents ∧ linearIndex (multiIndex n extents) extents = n := by
  obtain ⟨index, hindex, rfl⟩ := exists_linearIndex_eq hn
  rw [multiIndex_linearIndex hindex]
  exact ⟨hindex, rfl⟩

/-- The first digit counts boxes of the later axes. -/
theorem multiIndex_cons {i e r : Nat} {extents : List Nat} (hi : i < e) (hr : r < product extents) :
    multiIndex (i * product extents + r) (e :: extents) = i :: multiIndex r extents := by
  obtain ⟨hdigits, hnumber⟩ := multiIndex_spec hr
  have hcons : List.Forall₂ (· < ·) (i :: multiIndex r extents) (e :: extents) := .cons hi hdigits
  rw [← multiIndex_linearIndex hcons, linearIndex_cons hdigits.length_eq, hnumber]

/-- The digits of zero. -/
theorem multiIndex_zero {extents : List Nat} (hpos : 0 < product extents) :
    multiIndex 0 extents = extents.map fun _ => 0 := by
  induction extents with
  | nil => rfl
  | cons e extents ih =>
    rw [product_cons] at hpos
    have hrest : 0 < product extents := Nat.pos_of_mul_pos_left hpos
    have hcons := multiIndex_cons (Nat.pos_of_mul_pos_right hpos) hrest
    rwa [Nat.zero_mul, Nat.zero_add, ih hrest] at hcons

/-- **Adding one to a number advances its digits,** and behind the last number they are zero again. -/
theorem advance_eq {index extents : List Nat} (h : List.Forall₂ (· < ·) index extents) :
    advance index (extents.map fun _ => 0) extents =
      if linearIndex index extents + 1 < product extents then
        (true, multiIndex (linearIndex index extents + 1) extents)
      else (false, extents.map fun _ => 0) := by
  induction h with
  | nil => rfl
  | @cons i e index extents hi hrest ih =>
    have hlt := linearIndex_lt hrest
    rw [linearIndex_cons hrest.length_eq, product_cons, List.map_cons, advance, ih]
    by_cases hcarry : linearIndex index extents + 1 < product extents
    · -- The later axes count on, and the first digit stays.
      have hinside : i * product extents + (linearIndex index extents + 1) < e * product extents :=
        mul_add_lt_of_lt hi hcarry 0
      rw [if_pos hcarry, Nat.add_assoc, multiIndex_cons hi hcarry, if_pos hinside]
    · have hfull : linearIndex index extents + 1 = product extents := by omega
      have hzero : 0 < product extents := Nat.zero_lt_of_lt hlt
      have hnumber : i * product extents + product extents = (i + 1) * product extents := (Nat.succ_mul _ _).symm
      rw [if_neg hcarry, Nat.add_assoc, hfull, hnumber]
      simp only
      by_cases hnext : i + 1 < e
      · have hdigits := multiIndex_cons hnext hzero
        rw [Nat.add_zero, multiIndex_zero hzero] at hdigits
        rw [if_pos hnext, if_pos (Nat.mul_lt_mul_of_pos_right hnext hzero), hdigits]
      · have hlast : i + 1 = e := Nat.le_antisymm hi (Nat.le_of_not_lt hnext)
        rw [if_neg hnext, hlast, if_neg (Nat.lt_irrefl _)]

/-- The digits of the number after a number. -/
theorem advance_multiIndex {n : Nat} {extents : List Nat} (hn : n + 1 < product extents) :
    advance (multiIndex n extents) (extents.map fun _ => 0) extents = (true, multiIndex (n + 1) extents) := by
  obtain ⟨hdigits, hnumber⟩ := multiIndex_spec (Nat.lt_of_succ_lt hn)
  rw [advance_eq hdigits, hnumber, if_pos hn]

end MultiIndex

open MultiIndex

/-! ## (2) Loops over a grid -/

/-- **Some calls of a loop over a grid** from a node on: each gets the number of the node and what the odometer
shows, which then advances. -/
def odometer (shape : List Nat) : (left node : Nat) → (index : List Nat) → List (Nat × List Nat)
  | 0, _, _ => []
  | left + 1, node, index =>
    (node, index) :: odometer shape left (node + 1) (advance index (shape.map fun _ => 0) shape).2

/-- **The calls of a loop over a grid,** whose count of nodes is a word. -/
def nodeCalls (shape : List Nat) : List (Nat × List Nat) :=
  odometer shape (nodeCountWord shape).toNat 0 (shape.map fun _ => 0)

variable {shape : List Nat}

/-- **An odometer shows the digits** of the number it has counted to. -/
theorem odometer_eq_map (left : Nat) : ∀ {n : Nat}, n + left ≤ product shape →
    odometer shape left n (MultiIndex.multiIndex n shape) =
      (List.range' n left).map fun n => (n, MultiIndex.multiIndex n shape) := by
  induction left with
  | zero => exact fun _ => rfl
  | succ left ih =>
    intro n hn
    rw [odometer, List.range'_succ, List.map_cons]
    congr 1
    -- The odometer advances behind the last call too, and what it shows then is not looked at.
    cases left with
    | zero => rfl
    | succ left => rw [advance_multiIndex (by omega)]; exact ih (by omega)

/-- A walk that stops at the last node visits the digits too. -/
theorem walkFrom_eq_map (left : Nat) : ∀ {n : Nat}, n + left ≤ product shape →
    walkFrom (shape.map fun _ => 0) shape left (MultiIndex.multiIndex n shape) =
      (List.range' n left).map (MultiIndex.multiIndex · shape) := by
  -- There is a next node as long as one is left to be visited.
  induction left with
  | zero => exact fun _ => rfl
  | succ left ih =>
    intro n hn
    rw [walkFrom, List.range'_succ, List.map_cons]
    cases left with
    | zero => cases advance (MultiIndex.multiIndex n shape) (shape.map fun _ => 0) shape with
      | mk more next => cases more <;> rfl
    | succ left => rw [advance_multiIndex (by omega)]; exact congrArg _ (ih (by omega))

/-- A grid with a node has an axis. -/
theorem ne_nil_of_lt_nodeCount {n : Nat} (hn : n < nodeCount shape) : shape ≠ [] := by
  rintro rfl
  exact Nat.not_lt_zero n hn

/-- A count of nodes that is not zero leaves digits to begin with. -/
theorem multiIndex_origin {count : Nat} (hpos : 0 < count) (h : count ≤ nodeCount shape) :
    MultiIndex.multiIndex 0 shape = (shape.map fun _ => 0) ∧ count ≤ product shape := by
  rw [nodeCount_eq_product (ne_nil_of_lt_nodeCount (Nat.lt_of_lt_of_le hpos h))] at h
  exact ⟨MultiIndex.multiIndex_zero (Nat.lt_of_lt_of_le hpos h), h⟩

/-- **The first nodes of a grid** are the digits of the first numbers. -/
theorem gridWalk_eq_map {count : Nat} (h : count ≤ nodeCount shape) :
    gridWalk count shape = (List.range count).map (MultiIndex.multiIndex · shape) := by
  rcases Nat.eq_zero_or_pos count with rfl | hpos
  · rfl
  · obtain ⟨horigin, hcount⟩ := multiIndex_origin hpos h
    have hwalk := walkFrom_eq_map count (n := 0) (by rwa [Nat.zero_add])
    rwa [horigin, ← List.range_eq_range'] at hwalk

/-- **The nodes of a grid** are the digits of the numbers of its nodes. -/
theorem gridNodes_eq_map (shape : List Nat) :
    gridNodes shape = (List.range (nodeCount shape)).map (MultiIndex.multiIndex · shape) :=
  gridWalk_eq_map (Nat.le_refl _)

/-- A count that is a word is no larger than the exact one. -/
theorem toNat_nodeCountWord_le (shape : List Nat) : (nodeCountWord shape).toNat ≤ nodeCount shape := by
  rw [nodeCountWord_eq, UInt64.toNat_ofNat']
  exact Nat.mod_le _ _

/-- **A loop over a grid calls once for each number** below its count, with the digits of the number. -/
theorem nodeCalls_eq_map (shape : List Nat) :
    nodeCalls shape = (List.range (nodeCountWord shape).toNat).map fun n => (n, MultiIndex.multiIndex n shape) := by
  have hle := toNat_nodeCountWord_le shape
  unfold nodeCalls
  rcases Nat.eq_zero_or_pos (nodeCountWord shape).toNat with hzero | hpos
  · rw [hzero]
    rfl
  · obtain ⟨horigin, hcount⟩ := multiIndex_origin hpos hle
    rw [List.range_eq_range', ← horigin]
    exact odometer_eq_map _ (by rwa [Nat.zero_add])

/-- **The digits of the number of a node** are below the extents, and the node has this number. -/
theorem multiIndex_node {n : Nat} (hn : n < nodeCount shape) :
    List.Forall₂ (· < ·) (MultiIndex.multiIndex n shape) shape ∧
      linearIndex (MultiIndex.multiIndex n shape) shape = n :=
  multiIndex_spec (Nat.lt_of_lt_of_le hn (multiIndex_origin (Nat.zero_lt_of_lt hn) (Nat.le_refl _)).2)

/-! ## (3) Distances -/

/-- **The number of a cell** is the sum over the axes of its indices times the cells of the later axes. -/
theorem MultiIndex.linearIndex_eq_sum {index extents : List Nat} (h : index.length = extents.length) :
    linearIndex index extents =
      ((List.range extents.length).map fun d => index.getD d 0 * product (extents.drop (d + 1))).sum := by
  induction extents generalizing index with
  | nil =>
    obtain rfl := List.eq_nil_of_length_eq_zero h
    rfl
  | cons e extents ih =>
    obtain ⟨i, index, rfl⟩ := List.exists_cons_of_length_eq_add_one h
    have hlen : index.length = extents.length := Nat.succ.inj h
    rw [linearIndex_cons hlen, ih hlen, List.length_cons, List.range_succ_eq_map, List.map_cons, List.sum_cons,
      List.map_map]
    rfl

/-- The word of a sum is the sum of the words. -/
theorem ofNat_sum_map (f : Nat → Nat) (axes : List Nat) :
    UInt64.ofNat (axes.map f).sum = (axes.map fun d => UInt64.ofNat (f d)).sum := by
  induction axes with
  | nil => rfl
  | cons d axes ih => rw [List.map_cons, List.sum_cons, UInt64.ofNat_add, ih, List.map_cons, List.sum_cons]

/-- The later axes of a box have no more cells than all axes. -/
theorem MultiIndex.product_drop_le {index extents : List Nat} (h : List.Forall₂ (· < ·) index extents) (k : Nat) :
    product (extents.drop k) ≤ product extents := by
  induction h generalizing k with
  | nil =>
    rw [List.drop_nil]
  | @cons i e index extents hi _ ih =>
    cases k with
    | zero => exact Nat.le_refl _
    | succ k =>
      rw [List.drop_succ_cons, product_cons]
      exact Nat.le_trans (ih k) (Nat.le_mul_of_pos_left _ (Nat.zero_lt_of_lt hi))

namespace GridArray

variable {α : Type}

/-- **The distance of neighbouring nodes** is the word of the exact one. -/
theorem stride_eq (g : GridArray α) (axis : Nat) :
    g.stride axis = UInt64.ofNat (g.components * product (g.shape.drop (axis + 1))) := by
  rw [stride, product_ofNat, UInt64.ofNat_mul]

/-- The position of a node, axis by axis. -/
theorem mul_components_eq_sum (g : GridArray α) {n : Nat} (hn : n < nodeCount g.shape) :
    n * g.components = ((List.range g.shape.length).map fun d =>
      (MultiIndex.multiIndex n g.shape).getD d 0 * (g.components * product (g.shape.drop (d + 1)))).sum := by
  obtain ⟨hdigits, hnumber⟩ := multiIndex_node hn
  -- The number of the node is that of its digits, and the components are put into every term of the sum.
  conv_lhs => rw [← hnumber, linearIndex_eq_sum hdigits.length_eq, ← List.sum_map_mul_right]
  refine congrArg List.sum (List.map_congr_left fun d _ => ?_)
  rw [Nat.mul_assoc, Nat.mul_comm g.components]

/-- **The position of a node is where the distances along the axes lead,** as a word. -/
theorem sum_stride (g : GridArray α) {n : Nat} (hn : n < nodeCount g.shape) :
    UInt64.ofNat n * UInt64.ofNat g.components = ((List.range g.shape.length).map fun d =>
      UInt64.ofNat ((MultiIndex.multiIndex n g.shape).getD d 0) * g.stride d).sum := by
  rw [← UInt64.ofNat_mul, g.mul_components_eq_sum hn, ofNat_sum_map]
  refine congrArg List.sum (List.map_congr_left fun d _ => ?_)
  rw [UInt64.ofNat_mul, stride_eq]

/-- **The position of a node is exact** if the entries can be counted in words. -/
theorem sum_toNat_stride (g : GridArray α) {n : Nat} (hn : n < nodeCount g.shape)
    (hsize : nodeCount g.shape * g.components < UInt64.size) :
    n * g.components = ((List.range g.shape.length).map fun d =>
      (MultiIndex.multiIndex n g.shape).getD d 0 * (g.stride d).toNat).sum := by
  rw [g.mul_components_eq_sum hn]
  refine congrArg List.sum (List.map_congr_left fun d _ => ?_)
  have hword : g.components * product (g.shape.drop (d + 1)) < UInt64.size := by
    calc g.components * product (g.shape.drop (d + 1)) ≤ g.components * product g.shape :=
          Nat.mul_le_mul_left _ (product_drop_le (multiIndex_node hn).1 _)
      _ = nodeCount g.shape * g.components := by rw [nodeCount_eq_product (ne_nil_of_lt_nodeCount hn), Nat.mul_comm]
      _ < UInt64.size := hsize
  rw [stride_eq, UInt64.toNat_ofNat_of_lt' hword]

end GridArray

/-! ## (4) Numbers of a box -/

/-- **The numbers of the nodes of a box** inside a grid, in order. -/
def boxNumbers (shape : List Nat) (box : List Interval) : List Nat :=
  (List.range (product shape)).filter fun n => (boxCells box).contains (MultiIndex.multiIndex n shape)

/-- A node of a box has its digits in the intervals of the box. -/
theorem mem_boxNumbers {shape : List Nat} {box : List Interval} {n : Nat} :
    n ∈ boxNumbers shape box ↔ n < product shape ∧
      List.Forall₂ (fun i s => s.first ≤ i ∧ i < s.last) (MultiIndex.multiIndex n shape) box := by
  rw [boxNumbers, List.mem_filter, List.mem_range, List.contains_iff_mem, mem_boxCells]

/-- The numbers of a box increase. -/
theorem pairwise_boxNumbers (shape : List Nat) (box : List Interval) :
    (boxNumbers shape box).Pairwise (· < ·) := List.pairwise_lt_range.filter _

/-- The cells of all extents are the digits of all numbers. -/
theorem boxCells_eq_map (shape : List Nat) :
    boxCells (shape.map fun n => ⟨0, n⟩) = (List.range (product shape)).map (MultiIndex.multiIndex · shape) := by
  rw [← map_linearIndex_boxCells, List.map_map]
  refine ((List.map_congr_left fun index hindex => ?_).trans (List.map_id _)).symm
  rw [mem_boxCells, List.forall₂_map_right_iff] at hindex
  exact multiIndex_linearIndex (hindex.imp fun _ _ h => h.2)

/-- **The cells of a box** are the digits of its numbers. -/
theorem boxCells_eq_map_boxNumbers {shape : List Nat} {box : List Interval}
    (h : List.Forall₂ (fun (s : Interval) n => s.last ≤ n) box shape) :
    boxCells box = (boxNumbers shape box).map (MultiIndex.multiIndex · shape) := by
  rw [boxCells_eq_filter (p := fun index => (boxCells box).contains index) h fun _ _ => List.contains_iff_mem,
    boxCells_eq_map, List.filter_map]
  rfl

end Galerkin
