import Galerkin.Proofs.Assembly.Batches
import Mathlib.Data.List.Range

/-! # Even partitions

A range is cut into chunks by handing out its indices with a running offset: each chunk gets its share, and the
first chunks one index more until the remainder is used up. The bounds between the chunks have a closed form, and
from it follows that nothing is lost and nothing is handed out twice, however many chunks are asked for.

* **`chunkBound`** — where a chunk starts;
* **`EvenPartition`** — what is even about a partition;
* **`handOut`** — the running offset, in words of 64 bits;
* **`chunkRanges_even`** — the chunks of every range. -/

namespace Galerkin

/-! ## (1) Bounds of chunks -/

/-- **The number of chunks:** as many as asked for, but at least one and no more than there are indices. -/
def chunkNumber (n k : Nat) : Nat := min (max k 1) n

/-- **Where a chunk starts:** behind the shares of the chunks before it and what they got of the remainder. -/
def chunkBound (n k c : Nat) : Nat := c * (n / chunkNumber n k) + min c (n % chunkNumber n k)

/-- **A chunk lies between two neighbouring bounds.** -/
theorem chunkRanges_eq_map (n k : Nat) : chunkRanges n k =
    (List.range (chunkNumber n k)).map fun c => ⟨chunkBound n k c, chunkBound n k (c + 1)⟩ := by
  unfold chunkRanges
  split
  · rename_i hn
    rw [hn, chunkNumber, Nat.min_zero, List.range_zero, List.map_nil]
  · rfl

variable {n k c : Nat}

/-- A range that is not empty has a chunk. -/
theorem chunkNumber_pos (hn : 0 < n) : 0 < chunkNumber n k := by
  unfold chunkNumber
  omega

/-- No chunk is without a share. -/
theorem share_pos (hn : 0 < n) : 0 < n / chunkNumber n k :=
  Nat.div_pos (Nat.min_le_right _ _) (chunkNumber_pos hn)

/-- The first chunk starts at zero. -/
theorem chunkBound_zero (n k : Nat) : chunkBound n k 0 = 0 := by
  rw [chunkBound, Nat.zero_mul, Nat.zero_min]

/-- The last chunk ends at the end. -/
theorem chunkBound_last (hn : 0 < n) : chunkBound n k (chunkNumber n k) = n := by
  have hlt : n % chunkNumber n k < chunkNumber n k := Nat.mod_lt _ (chunkNumber_pos hn)
  rw [chunkBound, Nat.min_eq_right hlt.le, Nat.div_add_mod]

/-- **A chunk gets its share,** and one index more while the remainder lasts. -/
theorem chunkBound_succ (n k c : Nat) : chunkBound n k (c + 1) =
    chunkBound n k c + (n / chunkNumber n k + if c < n % chunkNumber n k then 1 else 0) := by
  rw [chunkBound, chunkBound, Nat.succ_mul]
  split <;> omega

/-- Bounds grow. -/
theorem chunkBound_mono {d : Nat} (h : c ≤ d) : chunkBound n k c ≤ chunkBound n k d := by
  induction h with
  | refl => exact Nat.le_refl _
  | step _ ih => exact ih.trans (chunkBound_succ n k _ ▸ Nat.le_add_right _ _)

/-! ## (2) Partitions -/

/-- **An even partition of the range below `n`:** so many intervals, none of them empty, the first at zero, each
where the one before it ends and the last up to the end, with sizes that do not grow and differ by at most one. -/
structure EvenPartition (n count : Nat) (ranges : List Interval) : Prop where
  count : ranges.length = count
  nonempty : ∀ s ∈ ranges, s.first < s.last
  first : ranges.head?.map (·.first) = some 0
  linked : ranges.IsChain fun s t => s.last = t.first
  last : ranges.getLast?.map (·.last) = some n
  sizes : ranges.Pairwise fun s t => t.size ≤ s.size ∧ s.size ≤ t.size + 1

/-- **The chunks are an even partition.** -/
theorem evenPartition_chunkRanges (hn : 0 < n) (k : Nat) : EvenPartition n (chunkNumber n k) (chunkRanges n k) := by
  have hnumber : chunkNumber n k ≠ 0 := (chunkNumber_pos hn).ne'
  rw [chunkRanges_eq_map]
  refine ⟨?count, ?nonempty, ?first, ?linked, ?last, ?sizes⟩
  case count => rw [List.length_map, List.length_range]
  case nonempty =>
    intro s hs
    obtain ⟨c, -, rfl⟩ := List.mem_map.mp hs
    have hshare := share_pos (k := k) hn
    show chunkBound n k c < chunkBound n k (c + 1)
    rw [chunkBound_succ]
    omega
  case first =>
    rw [List.head?_map, List.head?_range, if_neg hnumber]
    exact congrArg some (chunkBound_zero n k)
  case linked =>
    rw [List.isChain_map, List.isChain_range]
    exact fun _ _ => rfl
  case last =>
    rw [List.getLast?_map, List.getLast?_range, if_neg hnumber]
    show some (chunkBound n k (chunkNumber n k - 1 + 1)) = some n
    rw [Nat.sub_add_cancel (chunkNumber_pos hn), chunkBound_last hn]
  case sizes =>
    rw [List.pairwise_map]
    refine List.pairwise_lt_range.imp fun {c d} hcd => ?_
    -- Two sizes differ where one chunk got an index of the remainder and the later one did not.
    simp only [Interval.size, chunkBound_succ, Nat.add_sub_cancel_left]
    split <;> split <;> omega

/-! ## (3) The running offset -/

/-- **Handing out a range:** so many chunks from chunk `c` on, from the offset on, in words of 64 bits. -/
def handOut (base extra : UInt64) : Nat → UInt64 → UInt64 → List (UInt64 × UInt64)
  | 0, _, _ => []
  | left + 1, c, first =>
    let size := base + if c < extra then 1 else 0
    (first, first + size) :: handOut base extra left (c + 1) (first + size)

/-- The number of chunks, clamped between one and the number of indices. -/
def clampedNumber (n k : UInt64) : UInt64 := if k < 1 then 1 else if n < k then n else k

/-- **The chunks of a range, in words.** -/
def chunkWords (n k : UInt64) : List (UInt64 × UInt64) :=
  if n = 0 then []
  else handOut (n / clampedNumber n k) (n % clampedNumber n k) (clampedNumber n k).toNat 0 0

/-- The interval between two words. -/
def wordInterval (r : UInt64 × UInt64) : Interval := ⟨r.1.toNat, r.2.toNat⟩

/-- Clamping in words is clamping. -/
theorem toNat_clampedNumber {n : UInt64} (hn : 0 < n.toNat) (k : UInt64) :
    (clampedNumber n k).toNat = chunkNumber n.toNat k.toNat := by
  unfold clampedNumber chunkNumber
  simp only [UInt64.lt_iff_toNat_lt, UInt64.toNat_one]
  split
  · rw [UInt64.toNat_one]
    omega
  · split <;> omega

/-- **No word wraps around while a range is handed out,** so the offset is the bound of the chunk it has come
to. -/
theorem map_handOut {n k : Nat} (hn : 0 < n) (hword : n < UInt64.size) {base extra : UInt64}
    (hbase : base.toNat = n / chunkNumber n k) (hextra : extra.toNat = n % chunkNumber n k) (left : Nat) :
    ∀ {c first : UInt64}, c.toNat + left = chunkNumber n k → first.toNat = chunkBound n k c.toNat →
      (handOut base extra left c first).map wordInterval =
        (List.range' c.toNat left).map fun c => ⟨chunkBound n k c, chunkBound n k (c + 1)⟩ := by
  induction left with
  | zero => exact fun _ _ => rfl
  | succ left ih =>
    intro c first hc hfirst
    have hnumber : chunkNumber n k ≤ n := Nat.min_le_right _ _
    have hsize : UInt64.size = 2 ^ 64 := rfl
    -- What is handed out so far ends inside the range, and the range fits into a word.
    have hend : chunkBound n k (c.toNat + 1) ≤ n := by
      calc chunkBound n k (c.toNat + 1) ≤ chunkBound n k (chunkNumber n k) := chunkBound_mono (by omega)
        _ = n := chunkBound_last hn
    -- The share is a word, since it is no more than what the chunk adds to the bound before it.
    have hshare : (base + if c < extra then 1 else 0).toNat =
        n / chunkNumber n k + if c.toNat < n % chunkNumber n k then 1 else 0 := by
      rw [chunkBound_succ] at hend
      rw [UInt64.toNat_add, hbase, ← hextra]
      simp only [UInt64.lt_iff_toNat_lt, hextra] at hend ⊢
      split at hend
      · rename_i hlt
        rw [if_pos hlt, if_pos hlt]
        exact Nat.mod_eq_of_lt (by simp only [UInt64.toNat_one]; omega)
      · rename_i hlt
        rw [if_neg hlt, if_neg hlt]
        exact Nat.mod_eq_of_lt (by simp only [UInt64.toNat_zero]; omega)
    -- So the offset comes to the next bound.
    have hnext : (first + (base + if c < extra then 1 else 0)).toNat = chunkBound n k (c.toNat + 1) := by
      rw [UInt64.toNat_add, hshare, hfirst, ← chunkBound_succ]
      exact Nat.mod_eq_of_lt (by omega)
    have hcount : (c + 1).toNat = c.toNat + 1 := by
      rw [UInt64.toNat_add, UInt64.toNat_one]
      exact Nat.mod_eq_of_lt (by omega)
    rw [handOut, List.map_cons, List.range'_succ, List.map_cons, ih (by omega) (by rw [hnext, hcount]), hcount]
    congr 1
    rw [wordInterval, hfirst, hnext]

/-- **The chunks in words are the chunks.** -/
theorem map_chunkWords (n k : UInt64) : (chunkWords n k).map wordInterval = chunkRanges n.toNat k.toNat := by
  unfold chunkWords
  by_cases hn : n = 0
  · rw [if_pos hn, hn]
    rfl
  · have hpos : 0 < n.toNat := Nat.pos_of_ne_zero fun h => hn (UInt64.toNat_inj.mp h)
    have hcount := toNat_clampedNumber hpos k
    have hbase : (n / clampedNumber n k).toNat = n.toNat / chunkNumber n.toNat k.toNat := by
      rw [UInt64.toNat_div, hcount]
    have hextra : (n % clampedNumber n k).toNat = n.toNat % chunkNumber n.toNat k.toNat := by
      rw [UInt64.toNat_mod, hcount]
    rw [if_neg hn, hcount, chunkRanges_eq_map, List.range_eq_range']
    exact map_handOut hpos n.toNat_lt hbase hextra _ (Nat.zero_add _) (chunkBound_zero _ _).symm

/-! ## (4) Chunks of every range -/

/-- **Chunking is an even partition.** An empty range has no chunk. Any other range below `n` is cut into as many
chunks as asked for, but at least one and at most `n`: none is empty, the first starts at zero, each starts where
the one before it ends, the last ends at `n`, and the sizes do not grow and differ by at most one. Handing the range
out with a running offset in words of 64 bits gives these chunks for all words. -/
theorem chunkRanges_even (n k : Nat) :
    chunkRanges 0 k = [] ∧
      (0 < n → EvenPartition n (min (max k 1) n) (chunkRanges n k)) ∧
      ∀ m l : UInt64, (chunkWords m l).map wordInterval = chunkRanges m.toNat l.toNat :=
  ⟨rfl, fun hn => evenPartition_chunkRanges hn k, map_chunkWords⟩

/-- **Ten indices in four chunks,** and three in no chunk. -/
theorem chunkRanges_even_ten :
    EvenPartition 10 4 [⟨0, 3⟩, ⟨3, 6⟩, ⟨6, 8⟩, ⟨8, 10⟩] ∧ EvenPartition 3 1 [⟨0, 3⟩] ∧
      EvenPartition 2 2 (chunkRanges 2 18446744073709551615) := by
  obtain ⟨-, hten, -⟩ := chunkRanges_even 10 4
  obtain ⟨-, hthree, -⟩ := chunkRanges_even 3 0
  obtain ⟨-, hmany, -⟩ := chunkRanges_even 2 18446744073709551615
  exact ⟨hten (by decide), hthree (by decide), hmany (by decide)⟩

end Galerkin
