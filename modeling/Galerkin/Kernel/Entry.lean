import Galerkin.Kernel.Prepare

/-! # Evaluating kernels

The value of a form for a test and a trial function is a sum over the grid nodes where both are
nonzero. The derivative of a tensor-product function at a node is the product of one table entry per
axis; these products are formed axis by axis, so that nodes which share their first coordinates share
the work.

* **`CompiledKernel.sweep`** — the nested loops over the nodes;
* **`CompiledKernel.entry`** — a bilinear form for a pair of functions;
* **`CompiledKernel.entry1`** — a linear form for one function. -/

namespace Galerkin

variable {α : Type} [Scalar α]

/-- The nodes of one axis that are visited, each with the factors it contributes to the loads of a
program, and the number of nodes that the axis has in all. -/
structure AxisSlice (α : Type) where
  extent : Nat
  nodes : List (Nat × Array α)

namespace CompiledKernel

/-! ## (1) Factors of one axis -/

/-- The factor of a load at node `q` of an axis. -/
def loadFactor (trial test : AxisTables α) (i j : Nat) (axis q : Nat) (load : BasisLoad) : α :=
  let order := (load.orders.getD axis 0).toNat
  match load.role with
  | .trial => trial.table.get j q order
  | .test => test.table.get i q order

/-- The visited nodes of an axis, for test function `i` and trial function `j`. -/
def axisSlice (loads : List BasisLoad) (trial test : AxisTables α) (i j axis : Nat)
    (nodes : Interval) : AxisSlice α :=
  ⟨test.table.points,
    nodes.indices.map fun q =>
      (q, (loads.map (loadFactor trial test i j axis q)).toArray)⟩

/-- The slices of all axes. -/
def axisSlices (loads : List BasisLoad) (data : KernelData α) (test trial : List Nat)
    (nodes : List Interval) : List (AxisSlice α) :=
  ((data.trial.zip data.test).zip ((test.zip trial).zip nodes)).zipIdx.map
    fun (((u, v), ((i, j), range)), axis) => axisSlice loads u v i j axis range

/-! ## (2) Loops -/

/-- **The loops over the nodes.** `node` is the number of the node as far as the axes before are
concerned, `products` holds the products of their factors. -/
@[specialize] def sweep (p : Program α) (arrays : Array (GridArray α)) :
    List (AxisSlice α) → (node : Nat) → (products sums : Array α) → Array α
  | [], node, products, sums =>
    p.evaluate (fun slot => products.getD slot Scalar.zero) (fieldValue arrays node) sums
  | slice :: slices, node, products, sums =>
    slice.nodes.foldl (fun sums (q, factors) =>
      sweep p arrays slices (node * slice.extent + q)
        (Array.zipWith (· * ·) products factors) sums) sums

/-- The sum over the given nodes, started from zeros. -/
def combine (k : CompiledKernel α) (data : KernelData α) (test trial : List Nat)
    (nodes : List Interval) : Array α :=
  let p := k.program
  let arrays := (p.fields.map data.fieldArray).toArray
  sweep p arrays (axisSlices p.loads data test trial nodes) 0
    (Array.replicate p.loads.length Scalar.one) (Array.replicate p.slots Scalar.zero)

/-! ## (3) Entries -/

/-- The grid nodes of each axis on the common support of a test and a trial function; nothing as soon
as there is no common support on an axis. -/
def commonNodes (perElement : Nat) :
    (test trial : List (AxisTables α)) → (i j : List Nat) → Except Error (Option (List Interval))
  | v :: test, u :: trial, i :: is, j :: js => do
    checkIndex .entryTest i v.dofs
    checkIndex .entryTrial j u.dofs
    let overlap := (v.supportOf i).intersect (u.supportOf j)
    if overlap.isEmpty then return none
    let rest ← commonNodes perElement test trial is js
    pure (rest.map fun nodes => overlap.scale perElement :: nodes)
  | _, _, _, _ => pure (some [])

/-- **The value of a bilinear form** for a test and a trial function, one number per output slot;
zeros if their supports do not meet. -/
def entry (k : CompiledKernel α) (data : KernelData α) (test trial : List Nat) :
    Except Error (Array α) := do
  require (k.form.arity == .bilinear) (.kernel (.linearEntry k.name))
  match ← commonNodes data.pointsPerElement data.test data.trial test trial with
  | some nodes => pure (k.combine data test trial nodes)
  | none => pure (Array.replicate k.program.slots Scalar.zero)

/-- The grid nodes of each axis on the support of a test function. -/
def testNodes (perElement : Nat) (axes : List (AxisTables α)) (test : List Nat) :
    Except Error (List Interval) :=
  (axes.zip test).mapM fun (v, i) => do
    checkIndex .loadTest i v.dofs
    pure ((v.supportOf i).scale perElement)

/-- **The value of a linear form** for a test function, one number per output slot. -/
def entry1 (k : CompiledKernel α) (data : KernelData α) (test : List Nat) :
    Except Error (Array α) := do
  require (k.form.arity == .linear) (.kernel (.bilinearLoad k.name))
  let nodes ← testNodes data.pointsPerElement data.test test
  pure (k.combine data test test nodes)

end CompiledKernel

end Galerkin
