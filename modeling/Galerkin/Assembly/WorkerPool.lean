import Galerkin.Assembly.Outcome
import Galerkin.Index.Interval
import Galerkin.Text.Terminated

/-! # Worker pools

A pool splits a range of work into chunks and runs a task for each chunk. Results come back in chunk
order; if a task fails, the failure of the first such chunk is the failure of the batch. What a batch
yields does not depend on the number of workers or the order in which they take the chunks.

* **`resolveThreads`** — the number of workers, from a request or the environment;
* **`WorkerPool`** — settings and number of workers;
* **`chunkRanges`** — an even partition of a range;
* **`runChunks`** — the batch. -/

namespace Galerkin

/-! ## (1) Settings -/

/-- Settings of assembly runs. No requested threads means: as the environment says. -/
structure PoolOptions where
  threads : Int := 0
  serialThreshold : Nat := 64
  chunksPerWorker : Int := 4
  symmetric : Bool := true
  verbose : Bool := false
  deriving Repr, DecidableEq

/-- What the environment says about threads: the text of a variable, and the machine's own limit. -/
structure ThreadEnvironment where
  variableText : Option String := none
  machineLimit : Int := 1
  deriving Repr, DecidableEq

/-- The 32 low bits of an integer, as a signed number. -/
def low32 (n : Int) : Int := Int.bmod n (Nat.pow 2 32)

/-- The blanks that may stand before a number. -/
def isBlank (c : Char) : Bool :=
  c == ' ' || (decide (9 ≤ c.toNat) && decide (c.toNat ≤ 13))

/-- The number that decimal digits denote. -/
def digitsValue (digits : List Char) : Nat :=
  digits.foldl (fun n c => 10 * n + (c.toNat - '0'.toNat)) 0

/-- The largest value of a signed 64-bit number. -/
def maxSigned64 : Nat := Nat.pow 2 63 - 1

/-- **A positive decimal number,** with blanks and a plus sign in front at most; nothing may follow
it. Numbers too large for 64 bits count as the largest one. -/
def positiveNumber? (text : String) : Option Nat :=
  let chars := text.toList.dropWhile isBlank
  let digits := match chars with
    | '+' :: rest => rest
    | rest => rest
  let value := min (digitsValue digits) maxSigned64
  if !digits.isEmpty && digits.all Char.isDigit && decide (0 < value) then some value else none

/-- **The number of workers.** A positive request is granted. Without a request the environment
variable, a terminated text, decides, cut to 32 bits, and then the machine's limit; a variable that is
no positive number is reported and ignored. -/
def resolveThreads (env : ThreadEnvironment) (requested : Int) : Outcome Int := do
  require (decide (0 ≤ requested)) (.assembly .negativeThreads)
  if 0 < requested then return requested
  match env.variableText.map terminated with
  | some text =>
    match positiveNumber? text with
    | some n => return low32 n
    | none => Outcome.report (.threadCountIgnored text)
  | none => pure ()
  return max 1 env.machineLimit

/-- Settings with a resolved number of workers. -/
structure WorkerPool where
  options : PoolOptions
  workers : Int
  deriving Repr, DecidableEq

namespace WorkerPool

/-- **A pool of workers.** The number of chunks per worker must be positive. -/
def make (env : ThreadEnvironment) (options : PoolOptions) : Outcome WorkerPool := do
  let workers ← resolveThreads env options.threads
  require (decide (1 ≤ options.chunksPerWorker)) (.assembly .chunksPerWorker)
  return ⟨options, workers⟩

/-- A signed number as a count, which is a 64-bit word. -/
def countOf (n : Int) : Nat := (UInt64.ofInt n).toNat

/-- The number of chunks the drivers ask for: so many per worker. The product is a signed 32-bit
number. -/
def chunkCount (p : WorkerPool) : Nat :=
  countOf (low32 (p.workers * p.options.chunksPerWorker))

end WorkerPool

/-! ## (2) Chunks -/

/-- **An even partition of the range below `n`** into `k` chunks, but no more than `n` and at least
one; the first chunks are longer by one where `n` is no multiple. -/
def chunkRanges (n k : Nat) : List Interval :=
  if n = 0 then []
  else
    let count := min (max k 1) n
    let base := n / count
    let extra := n % count
    (List.range count).map fun c => ⟨c * base + min c extra, (c + 1) * base + min (c + 1) extra⟩

/-! ## (3) Batches -/

variable {β : Type}

/-- The outcomes of the tasks of all chunks, in chunk order. -/
def attempts (chunks : Nat) (task : Nat → Outcome β) : List (Outcome β) :=
  (List.range chunks).map task

/-- The causes of the tasks that failed, in chunk order. -/
def failures (outcomes : List (Outcome β)) : List Error :=
  outcomes.filterMap fun o =>
    match o.result with
    | .ok _ => none
    | .error e => some e

/-- The results of the tasks that succeeded, in chunk order. -/
def successes (outcomes : List (Outcome β)) : List β :=
  outcomes.filterMap fun o =>
    match o.result with
    | .ok b => some b
    | .error _ => none

/-- **A batch of tasks.** Every chunk runs. If all succeed the results come in chunk order; otherwise
the number of failed chunks is reported and the first failure is that of the batch. -/
def runChunks (chunks : Nat) (task : Nat → Outcome β) : Outcome (List β) :=
  let outcomes := attempts chunks task
  let events := outcomes.flatMap (·.events)
  match failures outcomes with
  | [] => ⟨events, .ok (successes outcomes)⟩
  | first :: rest =>
    ⟨events ++ [.chunksFailed (rest.length + 1) chunks], .error first⟩

/-- The `c`-th of some ranges. -/
def rangeAt (ranges : List Interval) (c : Nat) : Interval := ranges.getD c ⟨0, 0⟩

/-- A batch with one task for each of the given ranges. -/
def runRanges (ranges : List Interval) (task : Interval → Outcome β) : Outcome (List β) :=
  runChunks ranges.length fun c => task (rangeAt ranges c)

end Galerkin
