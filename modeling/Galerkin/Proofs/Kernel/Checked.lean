import Galerkin.Kernel.Entry
import Galerkin.Proofs.Index.Box
import Galerkin.Proofs.Tape.Reading

/-! # Evaluation with checked reads

A kernel reads tables, arrays and registers by position, and adds to slots by position. Here is the same
evaluation with a check before each of these steps: it has no result as soon as a position is not there.
A program that reads what is there only has the result it has without checks.

* **`DerivativeTable.get?`**, **`GridArray.read?`** — entries of tables and arrays, inside their extents;
* **`Program.evaluate?`** — registers are read after they are written, and outputs go to slots that exist;
* **`CompiledKernel.sweep?`**, **`CompiledKernel.combine?`** — the loops over the nodes;
* **`Program.evaluate?_eq`**, **`CompiledKernel.sweep?_eq`** — where the checks do not matter. -/

namespace Galerkin

section Loops

variable {β γ : Type}

/-- **A loop of steps that all have a result** is the loop without failure, and keeps what each step
keeps. -/
theorem foldlM_eq_some {I : β → Prop} {f? : β → γ → Option β} {f : β → γ → β} {xs : List γ} {b : β}
    (hb : I b) (step : ∀ x ∈ xs, ∀ c, I c → f? c x = some (f c x) ∧ I (f c x)) :
    xs.foldlM f? b = some (xs.foldl f b) ∧ I (xs.foldl f b) := by
  induction xs generalizing b with
  | nil => exact ⟨rfl, hb⟩
  | cons x xs ih =>
    obtain ⟨hx, hnext⟩ := step x (List.mem_cons_self ..) b hb
    rw [List.foldlM_cons, hx, List.foldl_cons]
    exact ih hnext fun y hy => step y (List.mem_cons_of_mem _ hy)

/-- A traversal of steps that all have a result collects the results. -/
theorem mapM_eq_some_map {f? : β → Option γ} {f : β → γ} {xs : List β}
    (h : ∀ x ∈ xs, f? x = some (f x)) : xs.mapM f? = some (xs.map f) := by
  induction xs with
  | nil => rfl
  | cons x xs ih =>
    rw [List.mapM_cons, h x (List.mem_cons_self ..), ih fun y hy => h y (List.mem_cons_of_mem _ hy)]
    rfl

/-- An entry inside an array is not replaced. -/
theorem getElem?_eq_some_getD {xs : Array β} {i : Nat} (h : i < xs.size) (d : β) :
    xs[i]? = some (xs.getD i d) := by
  rw [Array.getD_eq_getD_getElem?, Array.getElem?_eq_getElem h, Option.getD_some]

end Loops

variable {α : Type}

/-! ## (1) Tables and arrays -/

/-- An entry of a table, for a function, a point and an order that the table has. -/
def DerivativeTable.get? [Scalar α] (t : DerivativeTable α) (f q k : Nat) : Option α :=
  if f < t.functions ∧ q < t.points ∧ k ≤ t.maxDeriv then some (t.get f q k) else none

/-- A component of an array, at a node and with a number that the array has. -/
def GridArray.read? (g : GridArray α) (node component : Nat) : Option α :=
  if node < g.nodes ∧ component < g.components then g.data[node * g.components + component]? else none

/-- **An array that holds some components for each of some nodes.** -/
structure GridArray.Holds (g : GridArray α) (count width : Nat) : Prop where
  nodes : g.nodes = count
  components : g.components = width
  size : g.data.size = count * width

/-- It is not empty if there are nodes and components. -/
theorem GridArray.Holds.not_empty {g : GridArray α} {count width : Nat} (h : g.Holds count width)
    (hcount : 0 < count) (hwidth : 0 < width) : g.isEmpty = false := by
  rw [GridArray.isEmpty, Array.isEmpty_eq_false_iff]
  refine Array.ne_empty_of_size_pos ?_
  rw [h.size]
  exact Nat.mul_pos hcount hwidth

/-- Its entries are there. -/
theorem GridArray.Holds.read?_eq {g : GridArray α} {count width : Nat} (h : g.Holds count width)
    {node c : Nat} (hnode : node < count) (hc : c < width) (d : α) :
    g.read? node c = some (g.data.getD (node * g.components + c) d) := by
  obtain ⟨rfl, rfl, hsize⟩ := h
  rw [GridArray.read?, if_pos ⟨hnode, hc⟩]
  apply getElem?_eq_some_getD
  calc node * g.components + c < (node + 1) * g.components := by
        rw [Nat.succ_mul]
        omega
    _ ≤ g.data.size := hsize ▸ Nat.mul_le_mul_right _ hnode

namespace Program

variable [Scalar α]

/-! ## (2) Programs -/

/-- The value of an instruction, whose operands must have been written before. -/
def step? (basis : Nat → Option α) (fields : Nat → Nat → Option α) (written : Array α) :
    Instr α → Option α
  | .const c => some c.value
  | .loadBasis slot => basis slot
  | .loadField slot component => fields slot component
  | .arith op lhs rhs => do return op.apply (← written[lhs]?) (← written[rhs]?)

/-- The registers after some more instructions. -/
def sweepFrom? (basis : Nat → Option α) (fields : Nat → Nat → Option α) (written : Array α)
    (code : List (Instr α)) : Option (Array α) :=
  code.foldlM (fun written instr => do return written.push (← step? basis fields written instr)) written

/-- Adds a value to an accumulator that exists. -/
def addAt? (sums : Array α) (slot : Nat) (value : α) : Option (Array α) :=
  if slot < sums.size then some (addAt sums slot value) else none

/-- **Evaluates the program once** with all reads and writes checked. -/
def evaluate? (p : Program α) (basis : Nat → Option α) (fields : Nat → Nat → Option α)
    (sums : Array α) : Option (Array α) := do
  let registers ← sweepFrom? basis fields #[] p.code.toList
  p.outputs.foldlM (fun sums (slot, register) => do addAt? sums slot (← registers[register]?)) sums

variable {basis? : Nat → Option α} {basis : Nat → α} {fields? : Nat → Nat → Option α}
  {fields : Nat → Nat → α}

/-- An instruction that reads what is there has its value. -/
theorem step?_eq {written : Array α} {instr : Instr α} (hread : instr.ReadsBelow written.size)
    (hbasis : ∀ slot, .loadBasis slot = instr → basis? slot = some (basis slot))
    (hfields : ∀ slot c, .loadField slot c = instr → fields? slot c = some (fields slot c)) :
    step? basis? fields? written instr = some (step basis fields written instr) := by
  cases instr with
  | const c => rfl
  | loadBasis slot => exact hbasis slot rfl
  | loadField slot c => exact hfields slot c rfl
  | arith op lhs rhs =>
    obtain ⟨hl, hr⟩ := hread
    rw [step?, getElem?_eq_some_getD hl Scalar.zero, getElem?_eq_some_getD hr Scalar.zero]
    rfl

/-- **A sweep whose instructions read what is there** writes all registers. -/
theorem sweepFrom?_eq (code : List (Instr α))
    (hbasis : ∀ slot, .loadBasis slot ∈ code → basis? slot = some (basis slot))
    (hfields : ∀ slot c, .loadField slot c ∈ code → fields? slot c = some (fields slot c)) :
    ∀ written : Array α,
      (∀ (i : Nat) (instr : Instr α), code[i]? = some instr → instr.ReadsBelow (written.size + i)) →
        sweepFrom? basis? fields? written code = some (sweepFrom basis fields written code) := by
  induction code with
  | nil => exact fun _ _ => rfl
  | cons instr code ih =>
    intro written hread
    -- The registers before the first instruction are those that were written.
    have hstep : step? basis? fields? written instr = some (step basis fields written instr) := by
      apply step?_eq
      · exact hread 0 instr rfl
      · rintro slot rfl
        exact hbasis slot (List.mem_cons_self ..)
      · rintro slot c rfl
        exact hfields slot c (List.mem_cons_self ..)
    have hrest := ih (fun slot h => hbasis slot (List.mem_cons_of_mem _ h))
      (fun slot c h => hfields slot c (List.mem_cons_of_mem _ h))
      (written.push (step basis fields written instr)) fun i instr' hi => by
        rw [Array.size_push, Nat.add_right_comm]
        exact hread (i + 1) instr' hi
    rw [sweepFrom?, List.foldlM_cons, hstep]
    exact hrest

/-- **A program that reads what is there** has its value, and keeps the number of accumulators. -/
theorem evaluate?_eq {p : Program α} {load : BasisLoad → Prop} {component : Nat → Nat → Prop}
    (hp : p.ReadsOnly load component)
    (hbasis : ∀ slot < p.loads.length, basis? slot = some (basis slot))
    (hfields : ∀ slot c, .loadField slot c ∈ p.code → fields? slot c = some (fields slot c))
    {sums : Array α} (hsums : sums.size = p.slots) :
    p.evaluate? basis? fields? sums = some (p.evaluate basis fields sums) ∧
      (p.evaluate basis fields sums).size = p.slots := by
  have hsweep : sweepFrom? basis? fields? #[] p.code.toList = some (p.registers basis fields) := by
    rw [registers_eq_sweepFrom]
    apply sweepFrom?_eq
    · intro slot hmem
      exact hbasis slot (hp.slots _ (Array.mem_toList_iff.mp hmem))
    · intro slot c hmem
      exact hfields slot c (Array.mem_toList_iff.mp hmem)
    · intro i instr hi
      rw [Array.getElem?_toList] at hi
      rw [Array.size_empty, Nat.zero_add]
      exact hp.reads i instr hi
  rw [evaluate?, hsweep]
  -- Adding to a slot keeps the number of accumulators, so the slots of later outputs exist.
  refine foldlM_eq_some (I := fun s : Array α => s.size = p.slots) hsums ?_
  rintro ⟨slot, register⟩ hmem s hs
  obtain ⟨hslot, hregister⟩ := hp.outputs _ hmem
  rw [← size_registers p basis fields] at hregister
  have hlt : slot < s.size := hs ▸ hslot
  constructor
  · simp only [getElem?_eq_some_getD hregister Scalar.zero]
    exact if_pos hlt
  · exact Array.size_modify.trans hs

end Program

/-! ## (3) Loops over the nodes -/

variable [Scalar α]

/-- The nodes of a slice are below its extent, and every load has a factor at each of them. -/
def AxisSlice.Fits (slice : AxisSlice α) (loads : Nat) : Prop :=
  ∀ node ∈ slice.nodes, node.1 < slice.extent ∧ node.2.size = loads

namespace CompiledKernel

/-- The component of the field in a slot at a node. -/
def fieldValue? (arrays : Array (GridArray α)) (node slot component : Nat) : Option α := do
  (← arrays[slot]?).read? node component

/-- The loops over the nodes. -/
def sweep? (p : Program α) (arrays : Array (GridArray α)) :
    List (AxisSlice α) → (node : Nat) → (products sums : Array α) → Option (Array α)
  | [], node, products, sums => p.evaluate? (fun slot => products[slot]?) (fieldValue? arrays node) sums
  | slice :: slices, node, products, sums =>
    slice.nodes.foldlM (fun sums (q, factors) =>
      sweep? p arrays slices (node * slice.extent + q)
        (Array.zipWith (· * ·) products factors) sums) sums

/-- The factor of a load at node `q` of an axis. The tables of both functions are walked through with the
stride of the test function. -/
def loadFactor? (trial test : AxisTables α) (i j : Nat) (axis q : Nat) (load : BasisLoad) : Option α := do
  let order ← load.orders[axis]?
  if order < 0 then none
  else match load.role with
    | .trial =>
      if trial.table.pointStride = test.table.pointStride then trial.table.get? j q order.toNat else none
    | .test => test.table.get? i q order.toNat

/-- The visited nodes of an axis, for test function `i` and trial function `j`. -/
def axisSlice? (loads : List BasisLoad) (trial test : AxisTables α) (i j axis : Nat)
    (nodes : Interval) : Option (AxisSlice α) := do
  let nodes ← nodes.indices.mapM fun q => do
    return (q, (← loads.mapM (loadFactor? trial test i j axis q)).toArray)
  return ⟨test.table.points, nodes⟩

/-- The slices of all axes. -/
def axisSlices? (loads : List BasisLoad) (data : KernelData α) (test trial : List Nat)
    (nodes : List Interval) : Option (List (AxisSlice α)) :=
  ((data.trial.zip data.test).zip ((test.zip trial).zip nodes)).zipIdx.mapM
    fun (((u, v), ((i, j), range)), axis) => axisSlice? loads u v i j axis range

/-- **The sum over the given nodes** with all reads and writes checked. -/
def combine? (k : CompiledKernel α) (data : KernelData α) (test trial : List Nat)
    (nodes : List Interval) : Option (Array α) := do
  let p := k.program
  let arrays ← p.fields.mapM fun id => data.fields[id]?
  let slices ← axisSlices? p.loads data test trial nodes
  sweep? p arrays.toArray slices 0
    (Array.replicate p.loads.length Scalar.one) (Array.replicate p.slots Scalar.zero)

/-- **The value of a bilinear form,** without a result where a read or write is not in range. -/
def entry? (k : CompiledKernel α) (data : KernelData α) (test trial : List Nat) :
    Except Error (Option (Array α)) := do
  require (k.form.arity == .bilinear) (.kernel (.linearEntry k.name))
  match ← commonNodes data.pointsPerElement data.test data.trial test trial with
  | some nodes => pure (k.combine? data test trial nodes)
  | none => pure (some (Array.replicate k.program.slots Scalar.zero))

/-- **The value of a linear form,** without a result where a read or write is not in range. -/
def entry1? (k : CompiledKernel α) (data : KernelData α) (test : List Nat) :
    Except Error (Option (Array α)) := do
  require (k.form.arity == .linear) (.kernel (.bilinearLoad k.name))
  let nodes ← testNodes data.pointsPerElement data.test test
  pure (k.combine? data test test nodes)

/-! ## (4) Where the checks do not matter -/

/-- A component that a program reads is there at the nodes below `count`. -/
def FieldsHold (p : Program α) (arrays : Array (GridArray α)) (count : Nat) : Prop :=
  ∀ slot c, .loadField slot c ∈ p.code → ∃ a width, arrays[slot]? = some a ∧ a.Holds count width ∧ c < width

/-- Then it has its value. -/
theorem fieldValue?_eq {p : Program α} {arrays : Array (GridArray α)} {count node slot c : Nat}
    (h : FieldsHold p arrays count) (hnode : node < count) (hmem : .loadField slot c ∈ p.code) :
    fieldValue? arrays node slot c = some (fieldValue arrays node slot c) := by
  obtain ⟨a, width, ha, hholds, hc⟩ := h slot c hmem
  simp only [fieldValue?, fieldValue, ha]
  exact hholds.read?_eq hnode hc Scalar.zero

/-- **The loops read what is there:** the nodes of each axis are below its extent, every load has a factor,
and the arrays hold as many nodes as the extents have in all. -/
theorem sweep?_eq {p : Program α} {load : BasisLoad → Prop} {component : Nat → Nat → Prop}
    (hp : p.ReadsOnly load component) {arrays : Array (GridArray α)} {count : Nat}
    (harrays : FieldsHold p arrays count) (slices : List (AxisSlice α))
    (hslices : ∀ slice ∈ slices, slice.Fits p.loads.length) :
    ∀ (node : Nat) (products sums : Array α),
      (node + 1) * MultiIndex.product (slices.map (·.extent)) ≤ count →
      products.size = p.loads.length → sums.size = p.slots →
      sweep? p arrays slices node products sums = some (sweep p arrays slices node products sums) ∧
        (sweep p arrays slices node products sums).size = p.slots := by
  induction slices with
  | nil =>
    intro node products sums hnode hproducts hsums
    rw [sweep?, sweep]
    refine p.evaluate?_eq hp (fun slot hslot => ?_) (fun slot c hmem => ?_) hsums
    · exact getElem?_eq_some_getD (hproducts ▸ hslot) Scalar.zero
    · refine fieldValue?_eq harrays ?_ hmem
      rwa [List.map_nil, show MultiIndex.product ([] : List Nat) = 1 from rfl, Nat.mul_one] at hnode
  | cons slice slices ih =>
    intro node products sums hnode hproducts hsums
    obtain ⟨hslice, hrest⟩ := List.forall_mem_cons.mp hslices
    rw [sweep?, sweep]
    refine foldlM_eq_some (I := fun s : Array α => s.size = p.slots) hsums ?_
    rintro ⟨q, factors⟩ hmem s hs
    obtain ⟨hq, hfactors⟩ := hslice _ hmem
    refine ih hrest _ _ s ?_ ?_ hs
    · -- The nodes with these first coordinates are among those with one coordinate less.
      rw [List.map_cons, MultiIndex.product_cons, ← Nat.mul_assoc] at hnode
      refine (Nat.mul_le_mul_right _ ?_).trans hnode
      rw [Nat.succ_mul]
      exact Nat.add_lt_add_left hq _
    · rw [Array.size_zipWith, hproducts, hfactors, Nat.min_self]

end CompiledKernel

end Galerkin
