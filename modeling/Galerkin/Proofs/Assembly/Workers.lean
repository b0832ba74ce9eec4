import Galerkin.Assembly.Matrix
import Galerkin.Proofs.Assembly.Batches

/-! # Numbers of workers and chunks

The number of workers comes from the settings, from the environment or from the machine. The settings and the
machine give a positive number. A number from the environment is read with 64 bits and cut to 32, after its
sign has been looked at, so that what is left need not be positive. The number of chunks is a product of 32-bit
numbers, and is cut in the same way.

* **`DenotesPositive`**, **`positiveNumber?_eq_some_iff`** — the texts that are positive numbers;
* **`low32_pos_iff`**, **`low32_eq_self_iff`** — what the low bits keep;
* **`WorkerPool.make_result_eq_ok_iff`** — the pools that can be made;
* **`WorkerPool.exact_chunks_iff`** — when a range is cut into the number of chunks asked for;
* **`WorkerPool.workers_and_chunks`** — the numbers of workers and chunks of every pool. -/

namespace Galerkin

/-! ## (1) Texts that are numbers -/

/-- **The texts that are positive decimal numbers:** blanks, a plus sign or none, and digits. Numbers too large
for 64 bits count as the largest one. -/
def DenotesPositive (text : String) (n : Nat) : Prop :=
  ∃ blanks digits : List Char,
    (text.toList = blanks ++ digits ∨ text.toList = blanks ++ '+' :: digits) ∧
    (∀ c ∈ blanks, isBlank c = true) ∧ digits ≠ [] ∧ (∀ c ∈ digits, c.isDigit = true) ∧
    n = min (digitsValue digits) maxSigned64 ∧ 0 < n

/-- A character in a range of codes that has no blanks. -/
theorem isBlank_eq_false {c : Char} (h : 33 ≤ c.toNat) : isBlank c = false := by
  have hspace : c ≠ ' ' := fun heq => absurd (heq ▸ h) (by decide)
  rw [isBlank, Bool.or_eq_false_iff, beq_eq_false_iff_ne]
  refine ⟨hspace, ?_⟩
  rw [Bool.and_eq_false_iff, decide_eq_false_iff_not, decide_eq_false_iff_not]
  exact .inr (by omega)

/-- Digits are codes from 48 on. -/
theorem le_toNat_of_isDigit {c : Char} (h : c.isDigit = true) : 48 ≤ c.toNat := by
  rw [Char.isDigit, Bool.and_eq_true, decide_eq_true_eq, decide_eq_true_eq] at h
  exact h.1

/-- Blanks in front of something that does not begin with one. -/
theorem dropWhile_blanks {blanks rest : List Char} {c : Char} (hblanks : ∀ b ∈ blanks, isBlank b = true)
    (hc : isBlank c = false) : (blanks ++ c :: rest).dropWhile isBlank = c :: rest := by
  rw [List.dropWhile_append_of_pos hblanks, List.dropWhile_cons_of_neg (by rw [hc]; exact Bool.false_ne_true)]

/-- What follows a plus sign, the whole if there is none. -/
def withoutPlus (chars : List Char) : List Char :=
  match chars with
  | '+' :: rest => rest
  | rest => rest

/-- A text without a plus sign in front. -/
theorem withoutPlus_cons {c : Char} (hc : c ≠ '+') (rest : List Char) :
    withoutPlus (c :: rest) = c :: rest := by
  unfold withoutPlus
  split
  · next rest' heq => exact absurd (List.cons.inj heq).1 hc
  · rfl

/-- A text with a plus sign in front, or none. -/
theorem eq_or_eq_plus_cons (chars : List Char) :
    chars = withoutPlus chars ∨ chars = '+' :: withoutPlus chars := by
  unfold withoutPlus
  split
  · exact .inr rfl
  · exact .inl rfl

/-- Reading a number, with the removal of the sign as a function of its own. -/
theorem positiveNumber?_eq (text : String) :
    positiveNumber? text =
      let digits := withoutPlus (text.toList.dropWhile isBlank)
      let value := min (digitsValue digits) maxSigned64
      if !digits.isEmpty && digits.all Char.isDigit && decide (0 < value) then some value else none :=
  rfl

/-- What is read of blanks, a sign or none, and digits. -/
theorem withoutPlus_dropWhile {chars blanks digits : List Char}
    (hchars : chars = blanks ++ digits ∨ chars = blanks ++ '+' :: digits)
    (hblanks : ∀ c ∈ blanks, isBlank c = true) (hne : digits ≠ [])
    (hdigits : ∀ c ∈ digits, c.isDigit = true) : withoutPlus (chars.dropWhile isBlank) = digits := by
  obtain ⟨c, rest, rfl⟩ := List.exists_cons_of_ne_nil hne
  have hcode := le_toNat_of_isDigit (hdigits c (List.mem_cons_self ..))
  -- A digit is neither a blank nor the plus sign, so that it is not taken for one.
  have hplus : c ≠ '+' := fun heq => absurd (heq ▸ hcode) (by decide)
  rcases hchars with rfl | rfl
  · rw [dropWhile_blanks hblanks (isBlank_eq_false (by omega)), withoutPlus_cons hplus]
  · rw [dropWhile_blanks hblanks (isBlank_eq_false (by decide))]
    rfl

/-- **The texts that are read as positive numbers.** -/
theorem positiveNumber?_eq_some_iff {text : String} {n : Nat} :
    positiveNumber? text = some n ↔ DenotesPositive text n := by
  simp only [positiveNumber?_eq, Option.ite_none_right_eq_some, Option.some.injEq, Bool.and_eq_true,
    List.all_eq_true, decide_eq_true_eq, Bool.not_eq_true', List.isEmpty_eq_false_iff]
  constructor
  · rintro ⟨⟨⟨hne, hdigits⟩, hpos⟩, rfl⟩
    have htext := (List.takeWhile_append_dropWhile (p := isBlank) (l := text.toList)).symm
    refine ⟨text.toList.takeWhile isBlank, _, ?_, List.all_eq_true.mp List.all_takeWhile, hne, hdigits, rfl,
      hpos⟩
    rcases eq_or_eq_plus_cons (text.toList.dropWhile isBlank) with hread | hread
    · exact .inl (hread ▸ htext)
    · exact .inr (hread ▸ htext)
  · rintro ⟨blanks, digits, htext, hblanks, hne, hdigits, rfl, hpos⟩
    rw [withoutPlus_dropWhile htext hblanks hne hdigits]
    exact ⟨⟨⟨hne, hdigits⟩, hpos⟩, rfl⟩

/-! ## (2) Low bits -/

/-- The low bits of a number, by its remainder. -/
theorem low32_eq (n : Int) : low32 n = if n % 4294967296 < 2147483648 then n % 4294967296
    else n % 4294967296 - 4294967296 := rfl

/-- The range of the low bits. -/
theorem low32_bounds (n : Int) : -2147483648 ≤ low32 n ∧ low32 n < 2147483648 := by
  rw [low32_eq]
  split <;> omega

/-- **The low bits of a number are the number** if it has no more than 32, one of them for the sign. -/
theorem low32_eq_self_iff {n : Int} : low32 n = n ↔ -2147483648 ≤ n ∧ n < 2147483648 := by
  rw [low32_eq]
  split <;> omega

/-- **The low bits of a number are a positive number** if not all are zero and the highest one is. -/
theorem low32_pos_iff {n : Nat} : 1 ≤ low32 n ↔ 1 ≤ n % 4294967296 ∧ n % 4294967296 < 2147483648 := by
  rw [low32_eq]
  split <;> omega

/-- A number as a count, by its remainder. -/
theorem WorkerPool.countOf_eq (n : Int) : countOf n = (n % 18446744073709551616).toNat := by
  have hint : (2 : Int) ^ 64 = 18446744073709551616 := rfl
  have hnat : (2 : Nat) ^ 64 = 18446744073709551616 := rfl
  rw [countOf, UInt64.ofInt, UInt64.toNat_ofNat', hint, hnat]
  omega

/-! ## (3) Workers -/

namespace WorkerPool

/-- The number of workers that a request leads to. -/
def workersFor (env : ThreadEnvironment) (requested : Int) : Int :=
  if 0 < requested then requested
  else match (env.variableText.map terminated).bind positiveNumber? with
    | some n => low32 n
    | none => max 1 env.machineLimit

variable {env : ThreadEnvironment} {options : PoolOptions} {p : WorkerPool} {requested workers : Int}

/-- **The number of workers is resolved** for every request that is not negative. -/
theorem resolveThreads_result_eq_ok_iff : (resolveThreads env requested).result = .ok workers ↔
    0 ≤ requested ∧ workers = workersFor env requested := by
  have hlift : (liftM (require (decide (0 ≤ requested)) (.assembly .negativeThreads)) : Outcome Unit).result =
      require (decide (0 ≤ requested)) (.assembly .negativeThreads) := rfl
  unfold resolveThreads workersFor
  rw [Outcome.bind_result, hlift, require_bind_eq_ok_iff, decide_eq_true_eq]
  refine and_congr_right fun _ => Iff.trans ?_ eq_comm
  by_cases hgranted : 0 < requested
  · rw [if_pos hgranted, if_pos hgranted]
    simp
  · rw [if_neg hgranted, if_neg hgranted]
    cases hvariable : env.variableText.map terminated with
    | none => simp
    | some text =>
      cases hnumber : positiveNumber? text with
      | some n => simp [hnumber]
      | none =>
        -- A text that is no number is reported, and then treated as if there were none.
        have hreported : (do
            Outcome.report (.threadCountIgnored text)
            pure (max 1 env.machineLimit) : Outcome Int).result = .ok (max 1 env.machineLimit) := rfl
        simp [hnumber, hreported]

/-- **The pools that can be made,** and their numbers of workers. -/
theorem make_result_eq_ok_iff : (make env options).result = .ok p ↔
    0 ≤ options.threads ∧ 1 ≤ options.chunksPerWorker ∧ p = ⟨options, workersFor env options.threads⟩ := by
  have hlift : (liftM (require (decide (1 ≤ options.chunksPerWorker)) (.assembly .chunksPerWorker)) :
      Outcome Unit).result = require (decide (1 ≤ options.chunksPerWorker)) (.assembly .chunksPerWorker) := rfl
  unfold make
  rw [Outcome.bind_eq_ok_iff]
  simp only [Outcome.bind_result, hlift, require_bind_eq_ok_iff, decide_eq_true_eq,
    resolveThreads_result_eq_ok_iff]
  constructor
  · rintro ⟨workers, ⟨hthreads, rfl⟩, hchunks, hp⟩
    exact ⟨hthreads, hchunks, (Except.ok.inj hp).symm⟩
  · rintro ⟨hthreads, hchunks, rfl⟩
    exact ⟨_, ⟨hthreads, rfl⟩, hchunks, rfl⟩

/-- **When there is a worker:** if the settings ask for workers, or unless the environment asks for a number
with low bits that are no positive number. -/
theorem workersFor_pos_iff : 1 ≤ workersFor env requested ↔ 0 < requested ∨
    ∀ text n, env.variableText = some text → DenotesPositive (terminated text) n →
      1 ≤ n % 4294967296 ∧ n % 4294967296 < 2147483648 := by
  unfold workersFor
  by_cases hgranted : 0 < requested
  · rw [if_pos hgranted]
    exact iff_of_true hgranted (.inl hgranted)
  · rw [if_neg hgranted, or_iff_right hgranted]
    simp only [← positiveNumber?_eq_some_iff, ← low32_pos_iff]
    cases env.variableText with
    | none => exact iff_of_true (Int.le_max_left 1 _) fun _ _ htext => nomatch htext
    | some text =>
      rw [Option.map_some, Option.bind_some]
      cases hnumber : positiveNumber? (terminated text) with
      | none =>
        refine iff_of_true (Int.le_max_left 1 _) fun text' n htext hn => ?_
        obtain rfl := Option.some.inj htext
        exact absurd (hnumber.symm.trans hn) (by simp)
      | some n =>
        refine ⟨fun hpos text' n' htext hn => ?_, fun h => h text n rfl hnumber⟩
        obtain rfl := Option.some.inj htext
        obtain rfl := Option.some.inj (hnumber.symm.trans hn)
        exact hpos

/-- No pool has more workers than a 32-bit number says. -/
theorem workersFor_lt (hrequested : requested < 2147483648) (hlimit : env.machineLimit < 2147483648) :
    workersFor env requested < 2147483648 := by
  unfold workersFor
  split
  · exact hrequested
  · split
    · exact (low32_bounds _).2
    · omega

/-! ## (4) Chunks -/

/-- **The number of chunks of a range** that is not empty. -/
theorem length_chunkRanges {n : Nat} (hn : 0 < n) (k : Nat) : (chunkRanges n k).length = min n (max 1 k) := by
  rw [chunkRanges, if_neg (Nat.ne_of_gt hn), List.length_map, List.length_range, Nat.min_comm, Nat.max_comm]

/-- **When a range is cut into the number of chunks asked for:** if this number, so many chunks for each of so
many workers, is a 32-bit number. -/
theorem exact_chunks_iff (hworkers : 1 ≤ p.workers) (hchunks : 1 ≤ p.options.chunksPerWorker)
    (hworkers' : p.workers < 2147483648) (hchunks' : p.options.chunksPerWorker < 2147483648) :
    p.workers * p.options.chunksPerWorker < 2147483648 ↔
      ∀ n, 0 < n → n < UInt64.size → (chunkRanges n p.chunkCount).length =
        min n (p.workers * p.options.chunksPerWorker).toNat := by
  have hpos : 1 ≤ p.workers * p.options.chunksPerWorker := Int.mul_pos hworkers hchunks
  have hlarge : p.workers * p.options.chunksPerWorker < 4611686018427387904 := by
    calc p.workers * p.options.chunksPerWorker < 2147483648 * 2147483648 :=
          Int.mul_lt_mul hworkers' (Int.le_of_lt hchunks') hchunks (by decide)
      _ = 4611686018427387904 := rfl
  unfold chunkCount
  rw [countOf_eq]
  generalize p.workers * p.options.chunksPerWorker = product at hpos hlarge ⊢
  constructor
  · intro hfits n hn _
    rw [length_chunkRanges hn, low32_eq_self_iff.mpr ⟨by omega, hfits⟩]
    omega
  · intro hexact
    -- One index more than the chunks asked for tells the number of chunks.
    have hnext := hexact (product + 1).toNat (by omega) (by rw [UInt64.size]; omega)
    have hbounds := low32_bounds product
    rw [length_chunkRanges (by omega)] at hnext
    omega

/-- **The numbers of workers and chunks of every pool.** A pool can be made unless a negative number of threads
or no chunk for each worker is asked for. It has a worker unless no threads are asked for and the environment
asks for a number whose low bits are no positive number. A range that is not empty is cut into as many chunks
as the pool counts, at least one and no more than the range is long, and so is the first axis of a box. If
there is a worker, every range is cut into so many chunks for each worker exactly if that is a 32-bit
number. -/
theorem workers_and_chunks (hthreads : options.threads < 2147483648)
    (hchunks : options.chunksPerWorker < 2147483648) (hlimit : env.machineLimit < 2147483648) :
    ((∃ p, (make env options).result = .ok p) ↔ 0 ≤ options.threads ∧ 1 ≤ options.chunksPerWorker) ∧
    ∀ p, (make env options).result = .ok p → p.options = options ∧
      (1 ≤ p.workers ↔ 0 < options.threads ∨
        ∀ text n, env.variableText = some text → DenotesPositive (terminated text) n →
          1 ≤ n % 4294967296 ∧ n % 4294967296 < 2147483648) ∧
      (∀ n, 0 < n → (chunkRanges n p.chunkCount).length = min n (max 1 p.chunkCount) ∧
        ∀ rest, (Assembler.firstAxisBoxes (n :: rest) p.chunkCount).length =
          (chunkRanges n p.chunkCount).length) ∧
      (1 ≤ p.workers → (p.workers * options.chunksPerWorker < 2147483648 ↔
        ∀ n, 0 < n → n < UInt64.size → (chunkRanges n p.chunkCount).length =
          min n (p.workers * options.chunksPerWorker).toNat)) := by
  constructor
  · simp only [make_result_eq_ok_iff]
    constructor
    · rintro ⟨p, hthreads, hchunks, -⟩
      exact ⟨hthreads, hchunks⟩
    · rintro ⟨hthreads, hchunks⟩
      exact ⟨_, hthreads, hchunks, rfl⟩
  · intro p hp
    obtain ⟨-, hpositive, rfl⟩ := make_result_eq_ok_iff.mp hp
    refine ⟨rfl, workersFor_pos_iff, fun n hn => ⟨length_chunkRanges hn _, fun rest => ?_⟩, fun hworkers => ?_⟩
    · exact List.length_map _
    · exact exact_chunks_iff hworkers hpositive (workersFor_lt hthreads hlimit) hchunks

/-- The number 5 in the environment makes five workers, and ranges are cut into four chunks for each; the
number 4294967296, whose low bits are zero, makes no worker at all. -/
theorem workers_and_chunks_environment :
    (∃ p, (make ⟨some " +5", 8⟩ {}).result = .ok p ∧ 1 ≤ p.workers ∧
      ∀ n, 0 < n → n < UInt64.size → (chunkRanges n p.chunkCount).length = min n (p.workers * 4).toNat) ∧
    ∃ p, (make ⟨some "4294967296", 8⟩ {}).result = .ok p ∧ ¬1 ≤ p.workers := by
  constructor
  · obtain ⟨hmade, hpool⟩ := @workers_and_chunks ⟨some " +5", 8⟩ {} (by decide) (by decide) (by decide)
    obtain ⟨p, hp⟩ := hmade.mpr ⟨by decide, by decide⟩
    obtain ⟨-, hpositive, -, hexact⟩ := hpool p hp
    have hread : positiveNumber? (terminated " +5") = some 5 := by decide
    have hworkers : 1 ≤ p.workers := by
      refine hpositive.mpr (.inr fun text n htext hn => ?_)
      obtain rfl := Option.some.inj htext
      obtain rfl := Option.some.inj (hread.symm.trans (positiveNumber?_eq_some_iff.mpr hn))
      decide
    obtain ⟨-, -, rfl⟩ := make_result_eq_ok_iff.mp hp
    refine ⟨_, hp, hworkers, (hexact hworkers).mp ?_⟩
    simp [workersFor, hread, low32_eq]
  · obtain ⟨hmade, hpool⟩ := @workers_and_chunks ⟨some "4294967296", 8⟩ {} (by decide) (by decide)
      (by decide)
    obtain ⟨p, hp⟩ := hmade.mpr ⟨by decide, by decide⟩
    have hread : positiveNumber? (terminated "4294967296") = some 4294967296 := by decide
    refine ⟨p, hp, fun hworkers => ?_⟩
    rcases (hpool p hp).2.1.mp hworkers with hthreads | hnumber
    · exact absurd hthreads (by decide)
    · exact absurd (hnumber _ _ rfl (positiveNumber?_eq_some_iff.mp hread)).1 (by decide)

/-- A text for the number 2147483648, which has 32 bits without a sign, makes a negative number of workers. The
chunks of 65536 workers with 65536 chunks each are none by their low bits, so that ten indices make one
chunk. -/
theorem workers_negative_and_chunks_lost :
    (make ⟨some "2147483648", 1⟩ {}).result = .ok ⟨{}, -2147483648⟩ ∧
    ∃ p, (make ⟨none, 1⟩ { threads := 65536, chunksPerWorker := 65536 }).result = .ok p ∧
      p.workers = 65536 ∧ (chunkRanges 10 p.chunkCount).length = 1 := by
  have hread : positiveNumber? (terminated "2147483648") = some 2147483648 := by decide
  constructor
  · refine make_result_eq_ok_iff.mpr ⟨by decide, by decide, ?_⟩
    simp [workersFor, hread, low32_eq]
  · exact ⟨_, rfl, rfl, rfl⟩

end WorkerPool

end Galerkin
