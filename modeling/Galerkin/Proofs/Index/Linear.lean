import Galerkin.Proofs.Index.Box

/-! # Numbers of cells

The number of a cell grows along the lexicographic order of a box. So a walk that stops at the first cell
with a larger number visits the cells with numbers up to the bound, and a smaller box is visited in the
order of the larger one.

* **`MultiIndex.linearIndex_lt`** — a cell has a number below the number of cells;
* **`MultiIndex.map_linearIndex_boxCells`** — cells in storage order have the numbers in order;
* **`pairwise_linearIndex`** — numbers grow along a box;
* **`takeWhile_eq_filter`** — stopping early is leaving out;
* **`boxCells_eq_filter`** — a box inside another one is visited in the order of that one. -/

namespace Galerkin

/-! ## (1) Numbers -/

/-- The quotient of a number that is made up of a quotient and a remainder. -/
theorem mul_add_div_of_lt {n i r : Nat} (hr : r < n) : (i * n + r) / n = i := by
  rw [Nat.mul_comm, Nat.mul_add_div (Nat.zero_lt_of_lt hr), Nat.div_eq_of_lt hr, Nat.add_zero]

/-- **A number with a smaller quotient is smaller,** whatever the remainders are. -/
theorem mul_add_lt_of_lt {n i j r : Nat} (hij : i < j) (hr : r < n) (s : Nat) :
    i * n + r < j * n + s := by
  have hle : (i + 1) * n ≤ j * n := Nat.mul_le_mul_right n hij
  rw [Nat.add_mul, Nat.one_mul] at hle
  omega

/-- **Quotients and remainders in order are numbers in order.** -/
theorem flatMap_range_map {β : Type} (n m : Nat) (f : Nat → Nat → β) :
    ((List.range n).flatMap fun i => (List.range m).map (f i)) =
      (List.range (n * m)).map fun k => f (k / m) (k % m) := by
  induction n with
  | zero => rw [Nat.zero_mul]; rfl
  | succ n ih =>
    have hrow : (List.range m).map (f n) =
        (List.range m).map ((fun k => f (k / m) (k % m)) ∘ (n * m + ·)) := by
      refine List.map_congr_left fun r hr => ?_
      have hr := List.mem_range.mp hr
      rw [Function.comp_apply, mul_add_div_of_lt hr, Nat.mul_add_mod_of_lt hr]
    rw [List.range_succ, List.flatMap_append, List.flatMap_singleton, ih, hrow, Nat.add_mul, Nat.one_mul,
      List.range_add, List.map_append, List.map_map]

namespace MultiIndex

/-- A number that comes from earlier axes counts whole boxes of the later ones. -/
theorem linearIndexFrom_eq {index extents : List Nat} (h : index.length = extents.length) (m : Nat) :
    linearIndexFrom m index extents = m * product extents + linearIndex index extents := by
  unfold linearIndex
  induction index generalizing m extents with
  | nil =>
    obtain rfl := List.eq_nil_of_length_eq_zero h.symm
    change m = m * 1 + 0
    rw [Nat.mul_one, Nat.add_zero]
  | cons i index ih =>
    obtain ⟨e, extents, rfl⟩ := List.exists_cons_of_length_eq_add_one h.symm
    have hlen := Nat.succ.inj h
    rw [linearIndexFrom, linearIndexFrom, ih hlen, ih hlen (0 * e + i), product_cons, Nat.add_mul,
      Nat.mul_assoc, Nat.zero_mul, Nat.zero_add, Nat.add_assoc]

/-- The number of a cell, axis by axis. -/
theorem linearIndex_cons {index extents : List Nat} (h : index.length = extents.length) (i e : Nat) :
    linearIndex (i :: index) (e :: extents) = i * product extents + linearIndex index extents := by
  rw [linearIndex, linearIndexFrom, linearIndexFrom_eq h, Nat.zero_mul, Nat.zero_add]

/-- **A cell has a number below the number of cells.** -/
theorem linearIndex_lt {index extents : List Nat} (h : List.Forall₂ (· < ·) index extents) :
    linearIndex index extents < product extents := by
  induction h with
  | nil => exact Nat.zero_lt_one
  | @cons i e index extents hi hrest ih =>
    rw [linearIndex_cons hrest.length_eq, product_cons]
    exact mul_add_lt_of_lt hi ih 0

/-- A node of a grid has a number below the number of nodes. -/
theorem linearIndex_lt_nodeCount {shape node : List Nat} (h : shape ≠ []) (hnode : node ∈ gridNodes shape) :
    linearIndex node shape < nodeCount shape := by
  rw [nodeCount_eq_product h]
  exact linearIndex_lt ((mem_gridNodes h).mp hnode)

/-- A quotient and a remainder are determined by the number they make up. -/
theorem eq_and_eq_of_mul_add_eq {n i j r s : Nat} (hr : r < n) (hs : s < n)
    (h : i * n + r = j * n + s) : i = j ∧ r = s := by
  have hij : i = j := (mul_add_div_of_lt hr).symm.trans (h ▸ mul_add_div_of_lt hs)
  subst hij
  exact ⟨rfl, Nat.add_left_cancel h⟩

/-- **Different cells have different numbers.** -/
theorem linearIndex_inj {index index' extents : List Nat} (h : List.Forall₂ (· < ·) index extents)
    (h' : List.Forall₂ (· < ·) index' extents)
    (heq : linearIndex index extents = linearIndex index' extents) : index = index' := by
  induction h generalizing index' with
  | nil => exact (List.forall₂_nil_right_iff.mp h').symm
  | @cons i e index extents hi hrest ih =>
    obtain ⟨j, rest, hj, hrest', rfl⟩ := List.forall₂_cons_right_iff.mp h'
    rw [linearIndex_cons hrest.length_eq, linearIndex_cons hrest'.length_eq] at heq
    obtain ⟨rfl, hnumber⟩ := eq_and_eq_of_mul_add_eq (linearIndex_lt hrest) (linearIndex_lt hrest') heq
    rw [ih hrest' hnumber]

/-- **The number of an unknown** determines its function and its component. -/
theorem unknown_inj {index index' extents : List Nat} {n r s : Nat}
    (h : List.Forall₂ (· < ·) index extents) (h' : List.Forall₂ (· < ·) index' extents) (hr : r < n)
    (hs : s < n) (heq : linearIndex index extents * n + r = linearIndex index' extents * n + s) :
    index = index' := linearIndex_inj h h' (eq_and_eq_of_mul_add_eq hr hs heq).1

/-- An unknown has a number below the number of unknowns. -/
theorem unknown_lt {index extents : List Nat} {n r : Nat} (h : List.Forall₂ (· < ·) index extents)
    (hr : r < n) : linearIndex index extents * n + r < product extents * n :=
  mul_add_lt_of_lt (linearIndex_lt h) hr 0

/-- **Cells in storage order have the numbers in order.** -/
theorem map_linearIndex_boxCells (extents : List Nat) :
    (boxCells (extents.map fun n => ⟨0, n⟩)).map (linearIndex · extents) =
      List.range (product extents) := by
  induction extents with
  | nil => rfl
  | cons n extents ih =>
    have hrow : ∀ i ∈ Interval.indices ⟨0, n⟩,
        ((boxCells (extents.map fun n => ⟨0, n⟩)).map (i :: ·)).map (linearIndex · (n :: extents)) =
          (List.range (product extents)).map (i * product extents + ·) := by
      intro i _
      rw [← ih, List.map_map, List.map_map]
      refine List.map_congr_left fun index hindex => ?_
      have hlen := length_of_mem_boxCells hindex
      rw [List.length_map] at hlen
      exact linearIndex_cons hlen i n
    rw [List.map_cons, boxCells, List.map_flatMap, List.flatMap_congr hrow, product_cons,
      Interval.indices, Interval.size, Nat.sub_zero, ← List.range_eq_range', flatMap_range_map]
    refine (List.map_congr_left fun k _ => ?_).trans (List.map_id _)
    exact Nat.div_add_mod' k _

/-- **Every number below the number of cells** is that of a cell. -/
theorem exists_linearIndex_eq {extents : List Nat} {k : Nat} (h : k < product extents) :
    ∃ index, List.Forall₂ (· < ·) index extents ∧ linearIndex index extents = k := by
  rw [← List.mem_range, ← map_linearIndex_boxCells, List.mem_map] at h
  obtain ⟨index, hindex, hk⟩ := h
  rw [mem_boxCells, List.forall₂_map_right_iff] at hindex
  exact ⟨index, hindex.imp fun _ _ h => h.2, hk⟩

end MultiIndex

/-! ## (2) Order -/

/-- A box lies inside extents if its cells do. -/
theorem forall₂_lt_of_mem_boxCells {box : List Interval} {extents index : List Nat}
    (h : List.Forall₂ (fun s n => s.last ≤ n) box extents) (hindex : index ∈ boxCells box) :
    List.Forall₂ (· < ·) index extents := by
  have hcells := mem_boxCells.mp hindex
  induction h generalizing index with
  | nil =>
    obtain rfl := List.forall₂_nil_right_iff.mp hcells
    exact .nil
  | @cons s n box extents hs _ ih =>
    obtain ⟨i, rest, hi, hrest, rfl⟩ := List.forall₂_cons_right_iff.mp hcells
    exact .cons (Nat.lt_of_lt_of_le hi.2 hs) (ih (mem_boxCells.mpr hrest) hrest)

/-- **Numbers grow along a box.** -/
theorem pairwise_linearIndex {box : List Interval} {extents : List Nat}
    (h : List.Forall₂ (fun s n => s.last ≤ n) box extents) :
    (boxCells box).Pairwise fun i j =>
      MultiIndex.linearIndex i extents < MultiIndex.linearIndex j extents := by
  induction h with
  | nil => exact List.pairwise_singleton _ _
  | @cons s n box extents hs hrest ih =>
    have hlen : ∀ index ∈ boxCells box, index.length = extents.length := fun index hindex =>
      (forall₂_lt_of_mem_boxCells hrest hindex).length_eq
    rw [boxCells, List.pairwise_flatMap]
    constructor
    · intro i _
      rw [List.pairwise_map]
      refine ih.imp_of_mem fun {x y} hx hy hlt => ?_
      rw [MultiIndex.linearIndex_cons (hlen x hx), MultiIndex.linearIndex_cons (hlen y hy)]
      omega
    · refine (Interval.indices_pairwise s).imp fun {i j} hij x hx y hy => ?_
      obtain ⟨x, hxmem, rfl⟩ := List.mem_map.mp hx
      obtain ⟨y, hymem, rfl⟩ := List.mem_map.mp hy
      -- The later cells of `i` all come before the first cell of `j`.
      have hlt := MultiIndex.linearIndex_lt (forall₂_lt_of_mem_boxCells hrest hxmem)
      rw [MultiIndex.linearIndex_cons (hlen x hxmem), MultiIndex.linearIndex_cons (hlen y hymem)]
      exact mul_add_lt_of_lt hij hlt _

/-- **Stopping at the first element that fails is leaving out those that fail,** if they come last. -/
theorem takeWhile_eq_filter {β : Type} {p : β → Bool} {xs : List β}
    (h : xs.Pairwise fun x y => p y = true → p x = true) : xs.takeWhile p = xs.filter p := by
  induction xs with
  | nil => rfl
  | cons x xs ih =>
    obtain ⟨hx, hxs⟩ := List.pairwise_cons.mp h
    by_cases hp : p x = true
    · rw [List.takeWhile_cons_of_pos hp, List.filter_cons_of_pos hp, ih hxs]
    · rw [List.takeWhile_cons_of_neg hp, List.filter_cons_of_neg hp]
      exact (List.filter_eq_nil_iff.mpr fun y hy hpy => hp (hx y hy hpy)).symm

/-- **Passing over elements until the first one that does not hold is leaving out those that hold,** if they
come first. -/
theorem dropWhile_eq_filter {β : Type} {p : β → Bool} {xs : List β}
    (h : xs.Pairwise fun x y => p y = true → p x = true) : xs.dropWhile p = xs.filter fun x => !p x := by
  induction xs with
  | nil => rfl
  | cons x xs ih =>
    obtain ⟨hx, hxs⟩ := List.pairwise_cons.mp h
    by_cases hp : p x = true
    · rw [List.dropWhile_cons_of_pos hp, List.filter_cons_of_neg (by simp [hp]), ih hxs]
    · have hall : ∀ y ∈ x :: xs, (!p y) = true := by
        rw [List.forall_mem_cons]
        exact ⟨by simpa using hp, fun y hy => by simpa using mt (hx y hy) hp⟩
      rw [List.dropWhile_cons_of_neg hp, List.filter_eq_self.mpr hall]

/-- Lists along which a number grows are equal if they have the same elements. -/
theorem eq_of_pairwise_of_mem_iff {β : Type} {key : β → Nat} {xs ys : List β}
    (hx : xs.Pairwise fun x y => key x < key y) (hy : ys.Pairwise fun x y => key x < key y)
    (h : ∀ z, z ∈ xs ↔ z ∈ ys) : xs = ys := by
  have hnodup : ∀ {zs : List β}, (zs.Pairwise fun x y => key x < key y) → zs.Nodup := by
    intro zs hz
    refine hz.imp fun {x y} hlt heq => ?_
    rw [heq] at hlt
    exact Nat.lt_irrefl _ hlt
  have hperm := (List.perm_ext_iff_of_nodup (hnodup hx) (hnodup hy)).mpr h
  exact hperm.eq_of_pairwise (fun x y _ _ hxy hyx => absurd hxy (Nat.lt_asymm hyx)) hx hy

/-- **A box inside another one is visited in the order of that one.** -/
theorem boxCells_eq_filter {inner : List Interval} {extents : List Nat} {p : List Nat → Bool}
    (h : List.Forall₂ (fun s n => s.last ≤ n) inner extents)
    (hp : ∀ index ∈ boxCells (extents.map fun n => ⟨0, n⟩), p index = true ↔ index ∈ boxCells inner) :
    boxCells inner = (boxCells (extents.map fun n => ⟨0, n⟩)).filter p := by
  have houter : List.Forall₂ (fun (s : Interval) n => s.last ≤ n) (extents.map fun n => ⟨0, n⟩)
      extents := by
    rw [List.forall₂_map_left_iff, List.forall₂_same]
    exact fun n _ => Nat.le_refl n
  refine eq_of_pairwise_of_mem_iff (pairwise_linearIndex h) ((pairwise_linearIndex houter).filter p)
    fun index => ?_
  rw [List.mem_filter]
  constructor
  · intro hindex
    have hmem : index ∈ boxCells (extents.map fun n => ⟨0, n⟩) := by
      rw [mem_boxCells, List.forall₂_map_right_iff]
      exact (forall₂_lt_of_mem_boxCells h hindex).imp fun _ _ hlt => ⟨Nat.zero_le _, hlt⟩
    exact ⟨hmem, (hp index hmem).mpr hindex⟩
  · exact fun ⟨hmem, hpindex⟩ => (hp index hmem).mp hpindex

end Galerkin
