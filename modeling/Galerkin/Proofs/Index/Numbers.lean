import Galerkin.Proofs.Index.Words

/-! # Order and range of numbers

The number of a cell grows with the cell in lexicographic order. Over words it may wrap around on the way,
and a final number in range does not tell: intermediate products have to be in range as well. So the same
sums and products are done once more with words that notice when a result is too large for them.

* **`MultiIndex.lt_iff_linearIndex_lt`** — lexicographic order is the order of the numbers;
* **`MultiIndex.linearIndex_concat`** — a last axis more;
* **`CheckedWord`** — words without wrap-around;
* **`MultiIndex.product_checked`**, **`MultiIndex.linearIndex_checked`** — no step of either is too large. -/

namespace Galerkin

/-! ## (1) Order -/

namespace MultiIndex

/-- **Cells in lexicographic order have numbers in order.** -/
theorem lt_iff_linearIndex_lt {index index' extents : List Nat} (h : List.Forall₂ (· < ·) index extents)
    (h' : List.Forall₂ (· < ·) index' extents) :
    index < index' ↔ linearIndex index extents < linearIndex index' extents := by
  induction h generalizing index' with
  | nil =>
    obtain rfl := List.forall₂_nil_right_iff.mp h'
    exact iff_of_false (List.not_lt_nil _) (Nat.lt_irrefl _)
  | @cons i e index extents hi hrest ih =>
    obtain ⟨j, rest, hj, hrest', rfl⟩ := List.forall₂_cons_right_iff.mp h'
    rw [List.cons_lt_cons_iff, ih hrest', linearIndex_cons hrest.length_eq,
      linearIndex_cons hrest'.length_eq]
    -- The first index weighs more than all later ones together.
    rcases Nat.lt_trichotomy i j with hlt | rfl | hgt
    · exact iff_of_true (.inl hlt) (mul_add_lt_of_lt hlt (linearIndex_lt hrest) _)
    · rw [Nat.add_lt_add_iff_left, or_iff_right (Nat.lt_irrefl i), and_iff_right rfl]
    · have hback := mul_add_lt_of_lt hgt (linearIndex_lt hrest') (linearIndex index extents)
      refine iff_of_false ?_ (Nat.lt_asymm hback)
      rintro (hlt | ⟨rfl, -⟩)
      · exact Nat.lt_asymm hlt hgt
      · exact Nat.lt_irrefl i hgt

/-- The product of extents with a last one. -/
theorem product_concat {ι : Type} [Mul ι] [OfNat ι 1] (extents : List ι) (e : ι) :
    product (extents ++ [e]) = product extents * e := by
  rw [product, List.foldl_append]
  rfl

/-- **The number of a cell with a last index:** it counts the cells of the other axes and adds that
index. -/
theorem linearIndex_concat {ι : Type} [Add ι] [Mul ι] [OfNat ι 0] {index extents : List ι}
    (h : index.length = extents.length) (i e : ι) :
    linearIndex (index ++ [i]) (extents ++ [e]) = linearIndex index extents * e + i := by
  unfold linearIndex
  generalize (0 : ι) = number
  induction index generalizing number extents with
  | nil =>
    obtain rfl := List.eq_nil_of_length_eq_zero h.symm
    rfl
  | cons j index ih =>
    obtain ⟨d, extents, rfl⟩ := List.exists_cons_of_length_eq_add_one h.symm
    exact ih (Nat.succ.inj h) (number * d + j)

/-- A cell with a last index. -/
theorem forall₂_lt_concat {index extents : List Nat} (h : List.Forall₂ (· < ·) index extents) {i e : Nat}
    (hi : i < e) : List.Forall₂ (· < ·) (index ++ [i]) (extents ++ [e]) :=
  List.rel_append h (.cons hi .nil)

end MultiIndex

/-! ## (2) Words without wrap-around -/

/-- **A word, or nothing** once a result was too large for one. -/
structure CheckedWord where
  value : Option UInt64
  deriving Repr, DecidableEq

namespace CheckedWord

/-- The word of a number, if it is small enough. -/
def ofNat (n : Nat) : CheckedWord := ⟨if n < UInt64.size then some (UInt64.ofNat n) else none⟩

/-- The word with the result of an exact operation on two words. -/
def combine (op : Nat → Nat → Nat) (x y : CheckedWord) : CheckedWord :=
  ⟨x.value.bind fun a => y.value.bind fun b => (ofNat (op a.toNat b.toNat)).value⟩

instance : OfNat CheckedWord 0 := ⟨ofNat 0⟩

instance : OfNat CheckedWord 1 := ⟨ofNat 1⟩

instance : Add CheckedWord := ⟨combine (· + ·)⟩

instance : Mul CheckedWord := ⟨combine (· * ·)⟩

/-- Small numbers have words. -/
theorem ofNat_eq {n : Nat} (h : n < UInt64.size) : ofNat n = ⟨some (UInt64.ofNat n)⟩ := by
  rw [ofNat, if_pos h]

/-- Operations on the words of small numbers. -/
theorem combine_ofNat (op : Nat → Nat → Nat) {m n : Nat} (hm : m < UInt64.size) (hn : n < UInt64.size) :
    combine op (ofNat m) (ofNat n) = ofNat (op m n) := by
  rw [ofNat_eq hm, ofNat_eq hn, combine]
  simp only [Option.bind_some, UInt64.toNat_ofNat_of_lt' hm, UInt64.toNat_ofNat_of_lt' hn]

/-- The sum of the words of small numbers. -/
theorem ofNat_add {m n : Nat} (hm : m < UInt64.size) (hn : n < UInt64.size) :
    ofNat m + ofNat n = ofNat (m + n) := combine_ofNat (· + ·) hm hn

/-- Their product. -/
theorem ofNat_mul {m n : Nat} (hm : m < UInt64.size) (hn : n < UInt64.size) :
    ofNat m * ofNat n = ofNat (m * n) := combine_ofNat (· * ·) hm hn

end CheckedWord

namespace MultiIndex

/-- Extents that are not zero only make a product larger. -/
theorem le_foldl_mul {extents : List Nat} (hpos : ∀ e ∈ extents, 0 < e) (n : Nat) :
    n ≤ extents.foldl (· * ·) n := by
  rw [foldl_mul]
  exact Nat.le_mul_of_pos_right n (List.foldlRecOn extents _ Nat.one_pos fun _ hm e he =>
    Nat.mul_pos hm (hpos e he))

/-- **No running product of extents is too large for a word,** if their product is not. -/
theorem product_checked {extents : List Nat} (hpos : ∀ e ∈ extents, 0 < e)
    (h : product extents < UInt64.size) :
    product (extents.map CheckedWord.ofNat) = CheckedWord.ofNat (product extents) := by
  have hfrom : ∀ n, 0 < n → extents.foldl (· * ·) n < UInt64.size →
      (extents.map CheckedWord.ofNat).foldl (· * ·) (CheckedWord.ofNat n) =
        CheckedWord.ofNat (extents.foldl (· * ·) n) := by
    clear h
    induction extents with
    | nil => exact fun _ _ _ => rfl
    | cons e extents ih =>
      intro n hn h
      obtain ⟨he, hpos⟩ := List.forall_mem_cons.mp hpos
      have hstep : n * e < UInt64.size := Nat.lt_of_le_of_lt (le_foldl_mul hpos (n * e)) h
      have hword : CheckedWord.ofNat n * CheckedWord.ofNat e = CheckedWord.ofNat (n * e) :=
        CheckedWord.ofNat_mul (Nat.lt_of_le_of_lt (Nat.le_mul_of_pos_right n he) hstep)
          (Nat.lt_of_le_of_lt (Nat.le_mul_of_pos_left e hn) hstep)
      rw [List.map_cons, List.foldl_cons, hword]
      exact ih hpos (n * e) (Nat.mul_pos hn he) h
  exact hfrom 1 Nat.one_pos h

/-- **No step of Horner's rule is too large for a word,** if the number of cells is not. -/
theorem linearIndex_checked {index extents : List Nat} (h : List.Forall₂ (· < ·) index extents)
    (hcells : product extents < UInt64.size) :
    linearIndex (index.map CheckedWord.ofNat) (extents.map CheckedWord.ofNat) =
      CheckedWord.ofNat (linearIndex index extents) := by
  -- A number so far is below the number of cells of the axes so far, and so is the part of a product.
  have hfrom : ∀ n, (n + 1) * product extents < UInt64.size →
      linearIndexFrom (CheckedWord.ofNat n) (index.map CheckedWord.ofNat)
        (extents.map CheckedWord.ofNat) = CheckedWord.ofNat (linearIndexFrom n index extents) := by
    clear hcells
    induction h with
    | nil => exact fun _ _ => rfl
    | @cons i e index extents hi hrest ih =>
      intro n h
      have hcells : 0 < product extents := Nat.zero_lt_of_lt (linearIndex_lt hrest)
      rw [product_cons, ← Nat.mul_assoc] at h
      have hbox : (n + 1) * e < UInt64.size :=
        Nat.lt_of_le_of_lt (Nat.le_mul_of_pos_right _ hcells) h
      have hextent : e ≤ (n + 1) * e := Nat.le_mul_of_pos_left e (Nat.succ_pos n)
      have hnumber : n + 1 ≤ (n + 1) * e := Nat.le_mul_of_pos_right _ (Nat.zero_lt_of_lt hi)
      have hstep : n * e + i + 1 ≤ (n + 1) * e := by
        rw [Nat.succ_mul]
        omega
      have hproduct : CheckedWord.ofNat n * CheckedWord.ofNat e = CheckedWord.ofNat (n * e) :=
        CheckedWord.ofNat_mul (by omega) (by omega)
      have hsum : CheckedWord.ofNat (n * e) + CheckedWord.ofNat i = CheckedWord.ofNat (n * e + i) :=
        CheckedWord.ofNat_add (by omega) (by omega)
      rw [List.map_cons, List.map_cons, linearIndexFrom, hproduct, hsum]
      exact ih (n * e + i) (Nat.lt_of_le_of_lt (Nat.mul_le_mul_right _ hstep) h)
  exact hfrom 0 (by rwa [Nat.zero_add, Nat.one_mul])

end MultiIndex

end Galerkin
