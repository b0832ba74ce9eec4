import Galerkin.Proofs.Index.Linear

/-! # Numbers of cells as words

Global numbers are 64-bit words. Horner's rule over words wraps around as the exact one does. The digits of a
number are exact as long as the number and the extents are words themselves, and then the digits of the
number of a cell are its indices.

* **`MultiIndex.linearIndex_ofNat`** — numbers modulo the number of words;
* **`MultiIndex.multiIndex_linearIndex`** — the cell of the number of a cell;
* **`MultiIndex.multiIndex_ofNat`** — the same over words;
* **`MultiIndex.multiIndex_word`** — the cell of the word of the number of a cell;
* **`MultiIndex.map_toNat_ofNat`** — the words of its indices. -/

namespace Galerkin

/-- Words stand for the numbers that they are. -/
theorem map_ofNat_toNat (words : List UInt64) : (words.map UInt64.toNat).map UInt64.ofNat = words := by
  rw [List.map_map]
  exact (List.map_congr_left fun w _ => UInt64.ofNat_toNat).trans (List.map_id _)

/-- The word of a number that is an integer. -/
theorem ofInt_natCast (n : Nat) : UInt64.ofInt n = UInt64.ofNat n := by
  have hmod : ((n : Int) % 2 ^ 64).toNat = n % UInt64.size := by
    rw [UInt64.size]
    omega
  rw [UInt64.ofInt, hmod, UInt64.ofNat_mod_size]

namespace MultiIndex

/-- **Numbers over words** wrap around as the exact ones do. -/
theorem linearIndex_ofNat (index extents : List Nat) :
    linearIndex (index.map UInt64.ofNat) (extents.map UInt64.ofNat) =
      UInt64.ofNat (linearIndex index extents) := by
  have hfrom : ∀ (index extents : List Nat) (n : Nat),
      linearIndexFrom (UInt64.ofNat n) (index.map UInt64.ofNat) (extents.map UInt64.ofNat) =
        UInt64.ofNat (linearIndexFrom n index extents) := by
    intro index
    induction index with
    | nil =>
      intro extents n
      cases extents <;> rfl
    | cons i index ih =>
      intro extents n
      cases extents with
      | nil => rfl
      | cons e extents =>
        rw [List.map_cons, List.map_cons, linearIndexFrom, linearIndexFrom, ← UInt64.ofNat_mul,
          ← UInt64.ofNat_add, ih]
  exact hfrom index extents 0

/-- The digits of a number that continues another one are its indices, and the other one is left. -/
theorem splitDigits_linearIndexFrom {index extents : List Nat} (h : List.Forall₂ (· < ·) index extents)
    (m : Nat) : splitDigits (linearIndexFrom m index extents) extents = (m, index) := by
  induction h generalizing m with
  | nil => rfl
  | @cons i e index extents hi _ ih =>
    rw [linearIndexFrom, splitDigits, ih]
    simp only [mul_add_div_of_lt hi, Nat.mul_add_mod_of_lt hi]

/-- **The cell of the number of a cell** is that cell. -/
theorem multiIndex_linearIndex {index extents : List Nat} (h : List.Forall₂ (· < ·) index extents) :
    multiIndex (linearIndex index extents) extents = index :=
  congrArg Prod.snd (splitDigits_linearIndexFrom h 0)

/-- **The digits of a number over words** are the exact ones, if the number and the extents are words. -/
theorem multiIndex_ofNat {n : Nat} {extents : List Nat} (hn : n < UInt64.size)
    (hextents : ∀ e ∈ extents, e < UInt64.size) :
    multiIndex (UInt64.ofNat n) (extents.map UInt64.ofNat) =
      (multiIndex n extents).map UInt64.ofNat := by
  have hsplit : splitDigits (UInt64.ofNat n) (extents.map UInt64.ofNat) =
      (UInt64.ofNat (splitDigits n extents).1, (splitDigits n extents).2.map UInt64.ofNat) ∧
        (splitDigits n extents).1 ≤ n := by
    induction extents with
    | nil => exact ⟨rfl, Nat.le_refl n⟩
    | cons e extents ih =>
      obtain ⟨he, hextents⟩ := List.forall_mem_cons.mp hextents
      obtain ⟨hsplit, hle⟩ := ih hextents
      have hquotient := Nat.lt_of_le_of_lt hle hn
      rw [List.map_cons, splitDigits, hsplit, splitDigits]
      refine ⟨?_, Nat.le_trans (Nat.div_le_self _ _) hle⟩
      simp only [List.map_cons, UInt64.ofNat_div hquotient he, UInt64.ofNat_mod hquotient he]
  exact congrArg Prod.snd hsplit.1

/-- No extent is larger than the number of cells, if there are cells. -/
theorem le_product {index extents : List Nat} (h : List.Forall₂ (· < ·) index extents) :
    ∀ e ∈ extents, e ≤ product extents := by
  induction h with
  | nil => exact fun _ he => nomatch he
  | @cons i e index extents hi hrest ih =>
    have hcells : 0 < product extents := Nat.zero_lt_of_lt (linearIndex_lt hrest)
    rw [product_cons, List.forall_mem_cons]
    exact ⟨Nat.le_mul_of_pos_right e hcells, fun e' he' =>
      Nat.le_trans (ih e' he') (Nat.le_mul_of_pos_left _ (Nat.zero_lt_of_lt hi))⟩

/-- **The cell of the word of a number:** its indices as words, if the cells can be counted in words. -/
theorem multiIndex_word {index extents : List Nat} (h : List.Forall₂ (· < ·) index extents)
    (hcells : product extents < UInt64.size) :
    multiIndex (UInt64.ofNat (linearIndex index extents)) (extents.map UInt64.ofNat) =
      index.map UInt64.ofNat := by
  have hextents : ∀ e ∈ extents, e < UInt64.size := fun e he =>
    Nat.lt_of_le_of_lt (le_product h e he) hcells
  rw [multiIndex_ofNat (Nat.lt_trans (linearIndex_lt h) hcells) hextents, multiIndex_linearIndex h]

/-- **The words of the indices of a cell** stand for them, if the cells can be counted in words. -/
theorem map_toNat_ofNat {index extents : List Nat} (h : List.Forall₂ (· < ·) index extents)
    (hcells : product extents < UInt64.size) : (index.map UInt64.ofNat).map UInt64.toNat = index := by
  rw [List.map_map]
  refine (List.map_congr_left fun i hi => ?_).trans (List.map_id index)
  obtain ⟨k, hk, rfl⟩ := List.getElem_of_mem hi
  have hk' := h.length_eq ▸ hk
  have hlt : index[k] < extents[k] := h.get hk hk'
  have hle := le_product h _ (List.getElem_mem hk')
  exact UInt64.toNat_ofNat_of_lt' (Nat.lt_trans hlt (Nat.lt_of_le_of_lt hle hcells))

end MultiIndex

end Galerkin
