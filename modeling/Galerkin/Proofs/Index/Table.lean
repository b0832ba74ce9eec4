import Galerkin.Proofs.Exact

/-! # Tables with checked access

Computations that fill tables step by step read and write entries by number. Here every access is checked:
a step that reads or writes outside a table, or divides by zero, has no result.

* **`Yields`** — a computation has a result with a property, and **`Yields.range'`**: so has a counting loop;
* **`Table`** — rows of the same width, one after the other, with **`Table.get?`** and **`Table.set?`**;
* **`Table.set?_yields`** — inside the table, one entry changes and the others stay;
* **`read?`**, **`divide?`** — checked steps on arrays and numbers. -/

namespace Galerkin

/-! ## (1) Computations with a result -/

section Yields

variable {β γ : Type}

/-- **A computation has a result, and it has a property.** -/
def Yields (x : Option β) (P : β → Prop) : Prop := ∃ b, x = some b ∧ P b

namespace Yields

variable {P : β → Prop} {Q : γ → Prop} {b : β}

/-- A result with the property. -/
theorem some (h : P b) : Yields (some b) P := ⟨b, rfl, h⟩

/-- A weaker property. -/
theorem mono {P' : β → Prop} {x : Option β} (hx : Yields x P) (h : ∀ b, P b → P' b) : Yields x P' := by
  obtain ⟨b, rfl, hb⟩ := hx
  exact some (h b hb)

/-- **One step after the other.** -/
theorem bind {x : Option β} {f : β → Option γ} (hx : Yields x P) (hf : ∀ b, P b → Yields (f b) Q) :
    Yields (x >>= f) Q := by
  obtain ⟨b, rfl, hb⟩ := hx
  exact hf b hb

/-- A step whose result is known. -/
theorem after {x : Option β} {f : β → Option γ} (hx : x = Option.some b) (hf : Yields (f b) Q) :
    Yields (x >>= f) Q := by
  rw [hx]
  exact hf

/-- **A loop that counts up** keeps an invariant, if each of its steps passes it on to the next number. -/
theorem range' (start count : Nat) {f : β → Nat → Option β} {I : Nat → β → Prop} (h : I start b)
    (step : ∀ i c, start ≤ i → i < start + count → I i c → Yields (f c i) (I (i + 1))) :
    Yields ((List.range' start count).foldlM f b) (I (start + count)) := by
  induction count generalizing start b with
  | zero => exact some h
  | succ count ih =>
    rw [List.range'_succ, List.foldlM_cons]
    refine (step start b le_rfl (by omega) h).bind fun c hc => ?_
    have hrest := ih (start + 1) hc fun i d hi hlt => step i d (by omega) (by omega)
    rwa [Nat.add_assoc, Nat.add_comm 1 count] at hrest

end Yields

end Yields

/-! ## (2) Tables -/

/-- **A table:** rows of the same width, one after the other. -/
structure Table (α : Type) (rows width : Nat) where
  entries : Vector α (rows * width)

namespace Table

variable {α : Type} {rows width : Nat}

/-- A table with the same value everywhere. -/
def fill (rows width : Nat) (x : α) : Table α rows width := ⟨Vector.replicate _ x⟩

/-- The place of an entry among all entries. -/
def place (width : Nat) (i j : Int) : Nat := (i * width + j).toNat

/-- Whether a table has the entry. -/
def Inside (rows width : Nat) (i j : Int) : Prop := 0 ≤ i ∧ i < rows ∧ 0 ≤ j ∧ j < width

instance (i j : Int) : Decidable (Inside rows width i j) := by unfold Inside; infer_instance

/-- **The entry in row `i` and column `j`,** if the table has it. -/
def get? (t : Table α rows width) (i j : Int) : Option α :=
  if Inside rows width i j then t.entries[place width i j]? else none

/-- **The table with another entry in row `i` and column `j`,** if it has that entry. -/
def set? (t : Table α rows width) (i j : Int) (x : α) : Option (Table α rows width) :=
  if Inside rows width i j then some ⟨t.entries.setIfInBounds (place width i j) x⟩ else none

/-- Entries have different places. -/
theorem place_inj {i j i' j' : Int} (h : Inside rows width i j) (h' : Inside rows width i' j')
    (heq : place width i j = place width i' j') : i = i' ∧ j = j' := by
  obtain ⟨hi, -, hj, hlt⟩ := h
  obtain ⟨hi', -, hj', hlt'⟩ := h'
  lift i to Nat using hi
  lift j to Nat using hj
  lift i' to Nat using hi'
  lift j' to Nat using hj'
  have hnat : i * width + j = i' * width + j' := by
    unfold place at heq
    exact_mod_cast heq
  have hj : j < width := by omega
  have hj' : j' < width := by omega
  -- Row and column are quotient and remainder of the place.
  have hrow := congrArg (· / width) hnat
  have hcolumn := congrArg (· % width) hnat
  simp only [Nat.add_comm _ j, Nat.add_comm _ j', Nat.add_mul_div_right _ _ (Nat.zero_lt_of_lt hj),
    Nat.add_mul_mod_self_right, Nat.div_eq_of_lt hj, Nat.div_eq_of_lt hj', Nat.mod_eq_of_lt hj,
    Nat.mod_eq_of_lt hj', Nat.zero_add] at hrow hcolumn
  exact ⟨congrArg _ hrow, congrArg _ hcolumn⟩

/-- The place of an entry is one of the table. -/
theorem place_lt {i j : Int} (h : Inside rows width i j) : place width i j < rows * width := by
  obtain ⟨hi, hrows, hj, hlt⟩ := h
  lift i to Nat using hi
  lift j to Nat using hj
  have hplace : place width i j = i * width + j := by
    unfold place
    exact_mod_cast rfl
  have hi : i < rows := by omega
  have hj : j < width := by omega
  calc place width i j < (i + 1) * width := by
        rw [hplace, Nat.succ_mul]
        omega
    _ ≤ rows * width := Nat.mul_le_mul_right _ hi

/-- **`t'` is `t` with `x` in row `i` and column `j`.** -/
structure Updated (t : Table α rows width) (i j : Int) (x : α) (t' : Table α rows width) : Prop where
  here : t'.get? i j = some x
  elsewhere : ∀ a b, a ≠ i ∨ b ≠ j → t'.get? a b = t.get? a b

/-- **One entry of a row more.** The entries before it are as before. -/
theorem Updated.row {t t' : Table α rows width} {i : Int} {j : Nat} {x : α} (hset : t.Updated i j x t')
    {f : Nat → α} (hf : f j = x) {m : Nat} (hm : m < j + 1) (h : m < j → t.get? i m = some (f m)) :
    t'.get? i m = some (f m) := by
  rcases Nat.lt_succ_iff_lt_or_eq.mp hm with hlt | rfl
  · rw [hset.elsewhere _ _ (.inr (by omega)), h hlt]
  · rw [hset.here, hf]

/-- **One entry of a column more.** The entries above it are as before. -/
theorem Updated.column {t t' : Table α rows width} {i : Nat} {j : Int} {x : α} (hset : t.Updated i j x t')
    {f : Nat → α} (hf : f i = x) {m : Nat} (hm : m < i + 1) (h : m < i → t.get? m j = some (f m)) :
    t'.get? m j = some (f m) := by
  rcases Nat.lt_succ_iff_lt_or_eq.mp hm with hlt | rfl
  · rw [hset.elsewhere _ _ (.inl (by omega)), h hlt]
  · rw [hset.here, hf]

/-- **Entries of the table can be set,** and the others stay as they are. -/
theorem set?_yields (t : Table α rows width) {i j : Int} (h : Inside rows width i j) (x : α) :
    Yields (t.set? i j x) (t.Updated i j x) := by
  rw [set?, if_pos h]
  refine Yields.some ⟨?_, fun a b hne => ?_⟩
  · rw [get?, if_pos h, Vector.getElem?_setIfInBounds, if_pos rfl, if_pos (place_lt h)]
  · unfold get?
    by_cases hin : Inside rows width a b
    · rw [if_pos hin, if_pos hin, Vector.getElem?_setIfInBounds, if_neg]
      intro heq
      obtain ⟨rfl, rfl⟩ := place_inj h hin heq
      rcases hne with hne | hne <;> exact hne rfl
    · rw [if_neg hin, if_neg hin]

end Table

/-! ## (3) Arrays and quotients -/

section Steps

variable {α : Type}

/-- An entry of an array, if the array has it. -/
def read? (xs : Array α) (i : Int) : Option α := if 0 ≤ i then xs[i.toNat]? else none

/-- A quotient, if the divisor is not zero. -/
def divide? [Scalar α] (x y : α) : Option α := if Scalar.eq y Scalar.zero then none else some (x / y)

/-- Entries of an array can be read. -/
theorem read?_eq {xs : Array α} {i : Nat} (h : i < xs.size) (d : α) :
    read? xs i = some (xs.getD i d) := by
  rw [read?, if_pos (Int.natCast_nonneg i), Int.toNat_natCast, Array.getD_eq_getD_getElem?,
    Array.getElem?_eq_getElem h, Option.getD_some]

/-- Numbers other than zero are divisors. -/
theorem divide?_eq {K : Type} [Field K] [LinearOrder K] {y : K} (h : y ≠ 0) (x : K) :
    divide? x y = some (x / y) := by
  rw [divide?, Scalar.eq_exact, Scalar.zero_exact, if_neg (by rwa [decide_eq_true_iff])]

end Steps

end Galerkin
