import Galerkin.Proofs.Index.Numbers

/-! # Walks without a bound

A walk visits a cell and advances, until the box is exhausted. Its definition takes a number of steps that
is enough. Here is the loop as it is, without such a number and over any index arithmetic: it comes to an
end, and over words it visits the cells that it visits over natural numbers, for no index of a box is too
large for a word.

* **`MultiIndex.Visits`** — a walk that comes to an end, and `Visits.unique`: in one way;
* **`MultiIndex.visits_after`** — a walk over natural numbers visits a cell and the cells after it;
* **`MultiIndex.advance_ofNat`**, **`MultiIndex.Visits.ofNat`** — advancing and walking over words;
* **`MultiIndex.wordCells`** — the cells of a box of words, with their order and their numbers;
* **`MultiIndex.walk_covers_box`** — a walk from the start of a box visits these cells and ends at the
  start. -/

namespace Galerkin.MultiIndex

/-! ## (1) The loop -/

section Loop

variable {ι : Type} [Add ι] [OfNat ι 1] [LT ι] [DecidableLT ι]

/-- **A walk that comes to an end:** it visits a cell and advances, until the box is exhausted. Then the
index is `final`. -/
inductive Visits (start stop : List ι) : (index : List ι) → (visited : List (List ι)) →
    (final : List ι) → Prop where
  | last {index final : List ι} (h : advance index start stop = (false, final)) :
      Visits start stop index [index] final
  | more {index next final : List ι} {visited : List (List ι)}
      (h : advance index start stop = (true, next)) (rest : Visits start stop next visited final) :
      Visits start stop index (index :: visited) final

/-- **A walk comes to an end in one way.** -/
theorem Visits.unique {start stop index final final' : List ι} {visited visited' : List (List ι)}
    (h : Visits start stop index visited final) (h' : Visits start stop index visited' final') :
    visited = visited' ∧ final = final' := by
  induction h generalizing visited' with
  | last hadv =>
    cases h' with
    | last hadv' =>
      rw [hadv] at hadv'
      exact ⟨rfl, (Prod.mk.inj hadv').2⟩
    | more hadv' _ =>
      rw [hadv] at hadv'
      cases hadv'
  | more hadv _ ih =>
    cases h' with
    | last hadv' =>
      rw [hadv] at hadv'
      cases hadv'
    | more hadv' rest' =>
      rw [hadv] at hadv'
      obtain ⟨-, rfl⟩ := Prod.mk.inj hadv'
      obtain ⟨rfl, rfl⟩ := ih rest'
      exact ⟨rfl, rfl⟩

end Loop

/-! ## (2) Walks over natural numbers -/

/-- **A walk visits a cell and the cells after it,** and ends at the start of the box. -/
theorem visits_after {index start stop : List Nat} (h : index.length = start.length)
    (h' : start.length = stop.length) :
    Visits start stop index (index :: after index start stop) start := by
  -- Each step leaves one cell fewer.
  induction hcount : (after index start stop).length generalizing index with
  | zero =>
    rcases advance_spec h h' with ⟨hnil, hadv⟩ | ⟨next, rest, hafter, -⟩
    · rw [hnil]
      exact .last hadv
    · rw [hafter] at hcount
      cases hcount
  | succ n ih =>
    rcases advance_spec h h' with ⟨hnil, -⟩ | ⟨next, rest, hafter, hadv, hrest, hlen⟩
    · rw [hnil] at hcount
      cases hcount
    · rw [hafter] at hcount ⊢
      rw [← hrest] at hcount ⊢
      exact .more hadv (ih hlen (Nat.succ.inj hcount))

/-- **A walk from the start of a box visits its cells,** and ends where it started. -/
theorem visits_boxCells {start stop : List Nat} (h : start.length = stop.length) :
    Visits start stop start (boxCells (walkBox start stop)) start := by
  rw [boxCells_walkBox h]
  exact visits_after rfl h

/-- The cells of a walk are those between its start and its stop. -/
theorem mem_walkBox {start stop index : List Nat} (h : List.Forall₂ (· < ·) start stop) :
    index ∈ boxCells (walkBox start stop) ↔
      List.Forall₂ (· ≤ ·) start index ∧ List.Forall₂ (· < ·) index stop := by
  rw [mem_boxCells, walkBox]
  induction h generalizing index with
  | nil =>
    rw [List.zipWith_nil_left, List.forall₂_nil_right_iff, List.forall₂_nil_left_iff]
    constructor
    · rintro rfl
      exact ⟨rfl, .nil⟩
    · exact fun h => h.1
  | @cons s e start stop hlt _ ih =>
    have hlast : max (s + 1) e = e := Nat.max_eq_right hlt
    rw [List.zipWith_cons_cons, List.forall₂_cons_right_iff, List.forall₂_cons_left_iff]
    constructor
    · rintro ⟨i, rest, ⟨hi, hi'⟩, hrest, rfl⟩
      obtain ⟨hlow, hhigh⟩ := ih.mp hrest
      exact ⟨⟨i, rest, hi, hlow, rfl⟩, .cons (hlast ▸ hi') hhigh⟩
    · rintro ⟨⟨i, rest, hi, hlow, rfl⟩, hhigh⟩
      obtain ⟨hi', hhigh⟩ := List.forall₂_cons.mp hhigh
      exact ⟨i, rest, ⟨hi, hlast.symm ▸ hi'⟩, ih.mpr ⟨hlow, hhigh⟩, rfl⟩

/-- A box that stops inside extents lies inside them. -/
theorem walkBox_last_le {start stop extents : List Nat} (h : List.Forall₂ (· < ·) start stop)
    (hinside : List.Forall₂ (· ≤ ·) stop extents) :
    List.Forall₂ (fun (s : Interval) n => s.last ≤ n) (walkBox start stop) extents := by
  induction h generalizing extents with
  | nil =>
    obtain rfl := List.forall₂_nil_left_iff.mp hinside
    exact .nil
  | @cons s e start stop hlt _ ih =>
    obtain ⟨n, extents, hen, hrest, rfl⟩ := List.forall₂_cons_left_iff.mp hinside
    exact .cons (Nat.max_le.mpr ⟨Nat.le_trans hlt hen, hen⟩) (ih hrest)

/-! ## (3) Walks over words -/

/-- **Advancing over words** is advancing over natural numbers: the next index is at most the stop of its
axis, so that it does not wrap around. -/
theorem advance_ofNat {index start stop : List Nat} (h : List.Forall₂ (· < ·) index stop)
    (hlen : start.length = stop.length) (hstop : ∀ e ∈ stop, e < UInt64.size) :
    advance (index.map UInt64.ofNat) (start.map UInt64.ofNat) (stop.map UInt64.ofNat) =
      ((advance index start stop).1, (advance index start stop).2.map UInt64.ofNat) := by
  induction h generalizing start with
  | nil =>
    obtain rfl := List.eq_nil_of_length_eq_zero hlen
    rfl
  | @cons i e index stop hi _ ih =>
    obtain ⟨s, start, rfl⟩ := List.exists_cons_of_length_eq_add_one hlen
    obtain ⟨he, hstop⟩ := List.forall_mem_cons.mp hstop
    have hnext : UInt64.ofNat i + 1 = UInt64.ofNat (i + 1) := (UInt64.ofNat_add i 1).symm
    have hlt : UInt64.ofNat i + 1 < UInt64.ofNat e ↔ i + 1 < e := by
      rw [hnext, UInt64.lt_iff_toNat_lt, UInt64.toNat_ofNat_of_lt' he,
        UInt64.toNat_ofNat_of_lt' (Nat.lt_of_le_of_lt hi he)]
    rw [List.map_cons, List.map_cons, List.map_cons, advance, advance, ih (Nat.succ.inj hlen) hstop]
    rcases advance index start stop with ⟨_ | _, rest⟩
    · -- The later axes are exhausted, so this one moves on or carries.
      by_cases hmore : i + 1 < e
      · simp only [if_pos hmore, if_pos (hlt.mpr hmore), List.map_cons, ← hnext]
      · simp only [if_neg hmore, if_neg (mt hlt.mp hmore), List.map_cons]
    · rfl

/-- **A walk over words** visits the cells of the walk over natural numbers. -/
theorem Visits.ofNat {index start stop final : List Nat} {visited : List (List Nat)}
    (h : Visits start stop index visited final) (hlen : start.length = stop.length)
    (hstop : ∀ e ∈ stop, e < UInt64.size) (hcells : ∀ cell ∈ visited, List.Forall₂ (· < ·) cell stop) :
    Visits (start.map UInt64.ofNat) (stop.map UInt64.ofNat) (index.map UInt64.ofNat)
      (visited.map (·.map UInt64.ofNat)) (final.map UInt64.ofNat) := by
  induction h with
  | last hadv =>
    refine .last ?_
    rw [advance_ofNat (hcells _ (List.mem_singleton_self _)) hlen hstop, hadv]
  | more hadv _ ih =>
    obtain ⟨hcell, hcells⟩ := List.forall_mem_cons.mp hcells
    refine .more ?_ (ih hcells)
    rw [advance_ofNat hcell hlen hstop, hadv]

/-- Words in lexicographic order are numbers in that order. -/
theorem map_toNat_lt_iff {xs ys : List UInt64} :
    xs.map UInt64.toNat < ys.map UInt64.toNat ↔ xs < ys := by
  induction xs generalizing ys with
  | nil => cases ys with
    | nil => exact iff_of_false (List.not_lt_nil _) (List.not_lt_nil _)
    | cons y ys => exact iff_of_true (List.nil_lt_cons ..) (List.nil_lt_cons ..)
  | cons x xs ih => cases ys with
    | nil => exact iff_of_false (List.not_lt_nil _) (List.not_lt_nil _)
    | cons y ys =>
      rw [List.map_cons, List.map_cons, List.cons_lt_cons_iff, List.cons_lt_cons_iff, ih,
        UInt64.lt_iff_toNat_lt, UInt64.toNat_inj]

/-! ## (4) The cells of a box of words -/

/-- Words below words that are at most others are below those. -/
theorem forall₂_lt_of_le {xs ys zs : List UInt64} (h : List.Forall₂ (· < ·) xs ys)
    (h' : List.Forall₂ (· ≤ ·) ys zs) : List.Forall₂ (· < ·) xs zs := by
  induction h generalizing zs with
  | nil =>
    obtain rfl := List.forall₂_nil_left_iff.mp h'
    exact .nil
  | cons hxy _ ih =>
    obtain ⟨z, zs, hyz, hrest, rfl⟩ := List.forall₂_cons_left_iff.mp h'
    exact .cons (UInt64.lt_of_lt_of_le hxy hyz) (ih hrest)

/-- Words below words are numbers below numbers. -/
theorem map_toNat_forall₂_lt {xs ys : List UInt64} :
    List.Forall₂ (· < ·) (xs.map UInt64.toNat) (ys.map UInt64.toNat) ↔ List.Forall₂ (· < ·) xs ys := by
  rw [List.forall₂_map_left_iff, List.forall₂_map_right_iff]
  exact ⟨fun h => h.imp fun _ _ => UInt64.lt_iff_toNat_lt.mpr,
    fun h => h.imp fun _ _ => UInt64.lt_iff_toNat_lt.mp⟩

/-- Words up to words are numbers up to numbers. -/
theorem map_toNat_forall₂_le {xs ys : List UInt64} :
    List.Forall₂ (· ≤ ·) (xs.map UInt64.toNat) (ys.map UInt64.toNat) ↔ List.Forall₂ (· ≤ ·) xs ys := by
  rw [List.forall₂_map_left_iff, List.forall₂_map_right_iff]
  exact ⟨fun h => h.imp fun _ _ => UInt64.le_iff_toNat_le.mpr,
    fun h => h.imp fun _ _ => UInt64.le_iff_toNat_le.mp⟩

/-- **The cells of a box of words** in lexicographic order. -/
def wordCells (start stop : List UInt64) : List (List UInt64) :=
  (walk (start.map UInt64.toNat) (stop.map UInt64.toNat)).map (·.map UInt64.ofNat)

variable {start stop extents : List UInt64}

/-- The numbers of the cells are the cells of the box of numbers. -/
theorem map_toNat_wordCells (hbox : List.Forall₂ (· < ·) start stop) :
    (wordCells start stop).map (·.map UInt64.toNat) =
      walk (start.map UInt64.toNat) (stop.map UInt64.toNat) := by
  have hlt := map_toNat_forall₂_lt.mpr hbox
  rw [wordCells, List.map_map]
  refine (List.map_congr_left fun cell hcell => ?_).trans (List.map_id _)
  rw [walk_eq_boxCells hlt.length_eq, mem_walkBox hlt] at hcell
  -- An index of a cell is below the stop of its axis, which is a word.
  have hsmall : ∀ i ∈ cell, i < UInt64.size := by
    intro i hi
    obtain ⟨k, hk, rfl⟩ := List.getElem_of_mem hi
    have hk' := hcell.2.length_eq ▸ hk
    have hstop : (stop.map UInt64.toNat)[k] < UInt64.size := by
      rw [List.getElem_map]
      exact UInt64.toNat_lt_size _
    exact Nat.lt_trans (hcell.2.get hk hk') hstop
  rw [Function.comp_apply, List.map_map]
  exact (List.map_congr_left fun i hi => UInt64.toNat_ofNat_of_lt' (hsmall i hi)).trans (List.map_id _)

/-- **A cell of a box of words** lies between the start and the stop. -/
theorem mem_wordCells (hbox : List.Forall₂ (· < ·) start stop) {index : List UInt64} :
    index ∈ wordCells start stop ↔
      List.Forall₂ (· ≤ ·) start index ∧ List.Forall₂ (· < ·) index stop := by
  have hlt := map_toNat_forall₂_lt.mpr hbox
  have hinj : Function.Injective fun cell : List UInt64 => cell.map UInt64.toNat :=
    List.map_injective_iff.mpr fun _ _ => UInt64.toNat_inj.mp
  rw [← List.mem_map_of_injective hinj, map_toNat_wordCells hbox, walk_eq_boxCells hlt.length_eq,
    mem_walkBox hlt, map_toNat_forall₂_le, map_toNat_forall₂_lt]

/-- The number of a cell of words is that of its numbers, if the cells can be counted in words. -/
theorem toNat_linearIndex {index : List UInt64} (h : List.Forall₂ (· < ·) index extents)
    (hcells : product (extents.map UInt64.toNat) < UInt64.size) :
    (linearIndex index extents).toNat =
      linearIndex (index.map UInt64.toNat) (extents.map UInt64.toNat) := by
  have hnumber := linearIndex_lt (map_toNat_forall₂_lt.mpr h)
  have hword := linearIndex_ofNat (index.map UInt64.toNat) (extents.map UInt64.toNat)
  rw [map_ofNat_toNat, map_ofNat_toNat] at hword
  rw [hword, UInt64.toNat_ofNat_of_lt' (Nat.lt_trans hnumber hcells)]

/-- **Numbers grow along a box of words** if the cells of the extents can be counted in words. -/
theorem pairwise_wordCells (hbox : List.Forall₂ (· < ·) start stop)
    (hinside : List.Forall₂ (· ≤ ·) stop extents)
    (hcells : product (extents.map UInt64.toNat) < UInt64.size) :
    (wordCells start stop).Pairwise fun i j => i < j ∧ linearIndex i extents < linearIndex j extents := by
  have hlt := map_toNat_forall₂_lt.mpr hbox
  have hle := map_toNat_forall₂_le.mpr hinside
  have hextents : ∀ cell ∈ wordCells start stop, List.Forall₂ (· < ·) cell extents := fun cell hcell =>
    forall₂_lt_of_le ((mem_wordCells hbox).mp hcell).2 hinside
  have hsorted := pairwise_linearIndex (walkBox_last_le hlt hle)
  rw [← walk_eq_boxCells hlt.length_eq, ← map_toNat_wordCells hbox, List.pairwise_map] at hsorted
  refine hsorted.imp_of_mem fun {i j} hi hj hnumber => ?_
  have hi' := map_toNat_forall₂_lt.mpr (hextents i hi)
  have hj' := map_toNat_forall₂_lt.mpr (hextents j hj)
  refine ⟨map_toNat_lt_iff.mp ((lt_iff_linearIndex_lt hi' hj').mpr hnumber), ?_⟩
  rwa [UInt64.lt_iff_toNat_lt, toNat_linearIndex (hextents i hi) hcells,
    toNat_linearIndex (hextents j hj) hcells]

/-- **A walk over words visits the cells of its box,** and ends where it started. -/
theorem visits_wordCells (hbox : List.Forall₂ (· < ·) start stop) :
    Visits start stop start (wordCells start stop) start := by
  have hlt := map_toNat_forall₂_lt.mpr hbox
  have hvisits := (visits_boxCells hlt.length_eq).ofNat hlt.length_eq
    (List.forall_mem_map.mpr fun e _ => e.toNat_lt_size)
    fun cell hcell => ((mem_walkBox hlt).mp hcell).2
  rwa [map_ofNat_toNat, map_ofNat_toNat, ← walk_eq_boxCells hlt.length_eq] at hvisits

/-- **The lexicographic walk covers a box exactly once.** Begun at the start of a box of words that is not
empty on any axis, the loop that visits a cell and then advances comes to an end, in one way: it is back at
the start, and has visited the cells between start and stop, none twice and in increasing lexicographic
order. Inside extents whose cells can be counted in words their numbers increase as well. -/
theorem walk_covers_box (hbox : List.Forall₂ (· < ·) start stop)
    (hinside : List.Forall₂ (· ≤ ·) stop extents)
    (hcells : product (extents.map UInt64.toNat) < UInt64.size) :
    ∃ cells : List (List UInt64),
      (∀ visited final, Visits start stop start visited final ↔ visited = cells ∧ final = start) ∧
      cells = (walk (start.map UInt64.toNat) (stop.map UInt64.toNat)).map (·.map UInt64.ofNat) ∧
      (∀ index, index ∈ cells ↔ List.Forall₂ (· ≤ ·) start index ∧ List.Forall₂ (· < ·) index stop) ∧
      cells.Nodup ∧ cells.Pairwise (· < ·) ∧
      cells.Pairwise fun i j => linearIndex i extents < linearIndex j extents := by
  have hvisits := visits_wordCells hbox
  have hsorted := pairwise_wordCells hbox hinside hcells
  have hincreasing : (wordCells start stop).Pairwise (· < ·) := hsorted.imp fun h => h.1
  refine ⟨wordCells start stop, fun visited final => ?_, rfl, fun index => mem_wordCells hbox,
    hincreasing.imp fun h => ?_, hincreasing, hsorted.imp fun h => h.2⟩
  · constructor
    · exact fun h => h.unique hvisits
    · rintro ⟨rfl, rfl⟩
      exact hvisits
  · rintro rfl
    exact List.lt_irrefl _ h

/-- Two cells at the end of the range of words: the second index of neither can be increased without
leaving its extent, and the first one carries. -/
theorem walk_covers_box_lastWords :
    List.Forall₂ (· < ·) ([0, 9223372036854775806] : List UInt64) [2, 9223372036854775807] ∧
      List.Forall₂ (· ≤ ·) ([2, 9223372036854775807] : List UInt64) [2, 9223372036854775807] ∧
      product (([2, 9223372036854775807] : List UInt64).map UInt64.toNat) < UInt64.size ∧
      Visits ([0, 9223372036854775806] : List UInt64) [2, 9223372036854775807] [0, 9223372036854775806]
        [[0, 9223372036854775806], [1, 9223372036854775806]] [0, 9223372036854775806] := by
  have hbox : List.Forall₂ (· < ·) ([0, 9223372036854775806] : List UInt64) [2, 9223372036854775807] :=
    .cons (by decide) (.cons (by decide) .nil)
  have hinside : List.Forall₂ (· ≤ ·) ([2, 9223372036854775807] : List UInt64)
      [2, 9223372036854775807] := .cons (by decide) (.cons (by decide) .nil)
  have hcells : product (([2, 9223372036854775807] : List UInt64).map UInt64.toNat) < UInt64.size := by decide
  obtain ⟨cells, hvisits, hwalk, -⟩ := walk_covers_box hbox hinside hcells
  exact ⟨hbox, hinside, hcells, (hvisits _ _).mpr ⟨hwalk.symm ▸ by decide +kernel, rfl⟩⟩

end Galerkin.MultiIndex
