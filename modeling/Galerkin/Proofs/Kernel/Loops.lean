import Galerkin.Kernel.Entry
import Galerkin.Proofs.Form.Correctness
import Galerkin.Proofs.Index.Box
import Mathlib.Algebra.BigOperators.Group.List.Basic

/-! # Loops over grid nodes

The nested loops over the axes visit the cells of a box and evaluate the program at each of them. At a
node the loads of the program are products of table entries, formed axis by axis, and the fields are read
at the number of the node. So in exact arithmetic a slot receives the sum over the box of what the form
accumulates there.

* **`tensorDerivative`** — a derivative of a tensor-product function at a node;
* **`KernelData.pointAt`** — what a program reads at a node;
* **`CompiledKernel.sweep_eq_foldl`** — the loops visit a box, node after node;
* **`CompiledKernel.combine_spec`** — the sums that the loops leave in the slots. -/

namespace Galerkin

section Lists

variable {β γ δ : Type}

/-- A function of the first entries of a list of pairs. -/
theorem map_zip_fst {f : β → δ} {xs : List β} {ys : List γ} (h : xs.length ≤ ys.length) :
    (xs.zip ys).map (fun p => f p.1) = xs.map f := by
  conv_rhs => rw [← List.map_fst_zip h, List.map_map]
  rfl

/-- A function of the second entries of a list of pairs. -/
theorem map_zip_snd {f : γ → δ} {xs : List β} {ys : List γ} (h : ys.length ≤ xs.length) :
    (xs.zip ys).map (fun p => f p.2) = ys.map f := by
  conv_rhs => rw [← List.map_snd_zip h, List.map_map]
  rfl

/-- **The columns of a table** that is put together from lists of one length are these lists. -/
theorem map_zip_columns {A B C D E : Type} (us : List A) (vs : List B) (is : List C) (js : List D)
    (ks : List E) (hv : vs.length = us.length) (hi : is.length = us.length) (hj : js.length = us.length)
    (hk : ks.length = us.length) :
    ((us.zip vs).zip ((is.zip js).zip ks)).map (·.1.1) = us ∧
      ((us.zip vs).zip ((is.zip js).zip ks)).map (·.1.2) = vs ∧
      ((us.zip vs).zip ((is.zip js).zip ks)).map (·.2.1.1) = is ∧
      ((us.zip vs).zip ((is.zip js).zip ks)).map (·.2.1.2) = js ∧
      ((us.zip vs).zip ((is.zip js).zip ks)).map (·.2.2) = ks := by
  have hlen : (us.zip vs).length = ((is.zip js).zip ks).length := by
    simp only [List.length_zip]
    omega
  have hpair : (is.zip js).length = ks.length := by
    rw [List.length_zip]
    omega
  refine ⟨?_, ?_, ?_, ?_, ?_⟩
  · exact (map_zip_fst (f := fun x => x.1) hlen.le).trans (List.map_fst_zip hv.ge)
  · exact (map_zip_fst (f := fun x => x.2) hlen.le).trans (List.map_snd_zip hv.le)
  · exact (map_zip_snd (f := fun x => x.1.1) hlen.ge).trans
      ((map_zip_fst (f := Prod.fst) hpair.le).trans (List.map_fst_zip (by omega)))
  · exact (map_zip_snd (f := fun x => x.1.2) hlen.ge).trans
      ((map_zip_fst (f := Prod.snd) hpair.le).trans (List.map_snd_zip (by omega)))
  · exact (map_zip_snd (f := fun x => x.2) hlen.ge).trans (List.map_snd_zip hpair.ge)

end Lists

variable {K : Type} [Field K] [LinearOrder K]

/-! ## (1) Grid nodes -/

/-- **A derivative of a tensor-product function at a grid node:** the product over the axes of the entries
of their tables. An axis without an order has order zero. -/
def tensorDerivative : (axes : List (AxisTables K)) → (index node : List Nat) → (orders : List Int) → K
  | t :: axes, i :: index, q :: node, orders =>
    t.table.get i q (orders.headD 0).toNat * tensorDerivative axes index node orders.tail
  | _, _, _, _ => 1

/-- **What a program reads at a grid node:** the derivatives of a test and a trial function there, and the
components of every field. -/
def KernelData.pointAt (data : KernelData K) (test trial node : List Nat) : PointData K where
  basis load :=
    match load.role with
    | .trial => tensorDerivative data.trial trial node load.orders
    | .test => tensorDerivative data.test test node load.orders
  field id component :=
    let values := data.fieldArray id
    values.data.getD
      (MultiIndex.linearIndex node data.quadrature.shape * values.components + component) 0

/-- What the loops know of an axis: the tables of trial and test functions, the numbers of the test and
the trial function, and the nodes that are visited. -/
abbrev LoopAxis (K : Type) : Type :=
  (AxisTables K × AxisTables K) × ((Nat × Nat) × Interval)

/-- The value of a load at a node of some axes, the first of which has number `axis`. -/
def loadAt (axes : List (LoopAxis K)) (axis : Nat) (node : List Nat) (load : BasisLoad) : K :=
  match load.role with
  | .trial => tensorDerivative (axes.map (·.1.1)) (axes.map (·.2.1.2)) node (load.orders.drop axis)
  | .test => tensorDerivative (axes.map (·.1.2)) (axes.map (·.2.1.1)) node (load.orders.drop axis)

/-- The first axis contributes one factor. -/
theorem loadAt_cons (a : LoopAxis K) (axes : List (LoopAxis K)) (axis q : Nat) (node : List Nat)
    (load : BasisLoad) :
    loadAt (a :: axes) axis (q :: node) load =
      CompiledKernel.loadFactor a.1.1 a.1.2 a.2.1.1 a.2.1.2 axis q load *
        loadAt axes (axis + 1) node load := by
  have horder : (load.orders.drop axis).headD 0 = load.orders.getD axis 0 := by
    rw [List.headD_eq_head?_getD, List.head?_drop, List.getD_eq_getElem?_getD]
  unfold loadAt CompiledKernel.loadFactor
  cases load.role with
  | trial => simp only [List.map_cons, tensorDerivative, horder, List.tail_drop]
  | test => simp only [List.map_cons, tensorDerivative, horder, List.tail_drop]

namespace CompiledKernel

/-! ## (2) Nested loops -/

omit [LinearOrder K] in
/-- Products of factors, slot by slot. -/
theorem getD_zipWith_mul {products : Array K} {loads : List BasisLoad}
    (hsize : products.size = loads.length) (factor : BasisLoad → K) (slot : Nat) :
    (Array.zipWith (· * ·) products (loads.map factor).toArray).getD slot 0 =
      products.getD slot 0 * factor (loads.getD slot default) := by
  by_cases hlt : slot < loads.length
  · simp [hlt, hsize]
  · simp [hsize, hlt]

/-- **Nested loops visit the nodes of a box** in storage order, and evaluate the program at each with the
products of the factors of all axes. -/
theorem sweep_eq_foldl (p : Program K) (arrays : Array (GridArray K)) (loads : List BasisLoad)
    (axes : List (LoopAxis K)) :
    ∀ (axis node : Nat) (products sums : Array K), products.size = loads.length →
      sweep p arrays ((axes.zipIdx axis).map fun a =>
        axisSlice loads a.1.1.1 a.1.1.2 a.1.2.1.1 a.1.2.1.2 a.2 a.1.2.2) node products sums =
      (boxCells (axes.map (·.2.2))).foldl (fun sums cell => p.evaluate
        (fun slot => products.getD slot 0 * loadAt axes axis cell (loads.getD slot default))
        (fieldValue arrays
          (MultiIndex.linearIndexFrom node cell (axes.map (·.1.2.table.points)))) sums) sums := by
  induction axes with
  | nil =>
    intro axis node products sums _
    have hone : ∀ load, loadAt ([] : List (LoopAxis K)) axis [] load = 1 := by
      intro load
      unfold loadAt
      cases load.role <;> rfl
    simp only [List.zipIdx_nil, List.map_nil, sweep, boxCells, List.foldl_cons, List.foldl_nil, hone,
      mul_one, Scalar.zero_exact]
    rfl
  | cons a axes ih =>
    intro axis node products sums hsize
    simp only [List.zipIdx_cons, List.map_cons, sweep, axisSlice, boxCells, List.foldl_flatMap,
      List.foldl_map]
    refine List.foldl_ext _ _ _ fun sums q _ => ?_
    refine (ih (axis + 1) _ _ sums ?_).trans ?_
    · simp only [Array.size_zipWith, List.size_toArray, List.length_map, hsize, Nat.min_self]
    · refine List.foldl_ext _ _ _ fun sums cell _ => ?_
      congr 1
      funext slot
      rw [getD_zipWith_mul hsize, loadAt_cons, mul_assoc]

variable {k : CompiledKernel K} {data : KernelData K} {test trial : List Nat} {nodes : List Interval}

/-- **The loops of a kernel visit the nodes of a box** and evaluate the program at each of them. -/
theorem combine_eq_foldl (hslots : k.program.SlotsListed)
    (htest : test.length = data.test.length) (htrial : trial.length = data.trial.length)
    (hnodes : nodes.length = data.test.length) (haxes : data.trial.length = data.test.length)
    (hshape : data.test.map (·.table.points) = data.quadrature.shape) :
    k.combine data test trial nodes = (boxCells nodes).foldl
      (fun sums node => k.program.evaluateAt (data.pointAt test trial node) sums)
      (Array.replicate k.program.slots 0) := by
  obtain ⟨htrials, htests, his, hjs, hbox⟩ := map_zip_columns data.trial data.test test trial
    nodes haxes.symm (htest.trans haxes.symm) htrial (hnodes.trans haxes.symm)
  set axes : List (LoopAxis K) := (data.trial.zip data.test).zip ((test.zip trial).zip nodes)
  have hextents : axes.map (·.1.2.table.points) = data.quadrature.shape := by
    rw [← hshape, ← htests, List.map_map]
    rfl
  have hloops := sweep_eq_foldl k.program (k.program.fields.map data.fieldArray).toArray
    k.program.loads axes 0 0 (Array.replicate k.program.loads.length 1)
    (Array.replicate k.program.slots 0) Array.size_replicate
  rw [hbox, hextents] at hloops
  rw [combine, axisSlices, Scalar.one_exact, Scalar.zero_exact]
  refine hloops.trans (List.foldl_ext _ _ _ fun sums node _ => ?_)
  refine hslots.evaluate_congr (fun slot hslot => ?_) (fun slot hslot => ?_) sums
  · rw [Program.basisOf, KernelData.pointAt, ← htrials, ← htests, ← his, ← hjs]
    simp [hslot, loadAt]
  · funext component
    simp [fieldValue, hslot, Program.fieldOf, KernelData.pointAt, MultiIndex.linearIndex]

/-! ## (3) Sums over a box -/

omit [LinearOrder K] in
/-- Values that are added one after the other add up. -/
theorem foldl_add (values : List K) (start : K) : values.foldl (· + ·) start = start + values.sum := by
  induction values generalizing start with
  | nil => rw [List.foldl_nil, List.sum_nil, add_zero]
  | cons x values ih => rw [List.foldl_cons, ih, List.sum_cons, add_assoc]

/-- **Evaluating the program of a form at some points** adds to each slot what the form accumulates at
all of them. -/
theorem foldl_evaluateAt {form : Form K} (hform : form.Valid) {p : Program K}
    (hp : lowerForm form = .ok p) {ι : Type} (points : List ι) (at_ : ι → PointData K)
    (sums : Array K) :
    (points.foldl (fun sums x => p.evaluateAt (at_ x) sums) sums).size = sums.size ∧ ∀ slot,
      (points.foldl (fun sums x => p.evaluateAt (at_ x) sums) sums)[slot]? = sums[slot]?.map
        fun start => start + (points.map fun x => (form.accumulated (at_ x) slot).sum).sum := by
  induction points generalizing sums with
  | nil => simp
  | cons x points ih =>
    obtain ⟨hsize, hvalues⟩ := lowerForm_evaluateAt hform hp (at_ x) sums
    obtain ⟨ihsize, ihvalues⟩ := ih (p.evaluateAt (at_ x) sums)
    refine ⟨ihsize.trans hsize, fun slot => ?_⟩
    rw [List.foldl_cons, ihvalues, hvalues, Option.map_map, List.map_cons, List.sum_cons]
    refine congrArg (Option.map · _) (funext fun start => ?_)
    rw [Function.comp_apply, foldl_add, add_assoc]

/-- **The sums that the loops leave in the slots:** what the form accumulates at the nodes of the box. -/
theorem combine_spec (hform : k.form.Valid) (hp : lowerForm k.form = .ok k.program)
    (htest : test.length = data.test.length) (htrial : trial.length = data.trial.length)
    (hnodes : nodes.length = data.test.length) (haxes : data.trial.length = data.test.length)
    (hshape : data.test.map (·.table.points) = data.quadrature.shape) :
    (k.combine data test trial nodes).size = k.form.outputSlots ∧
      ∀ slot < k.form.outputSlots, (k.combine data test trial nodes)[slot]? =
        some ((boxCells nodes).map fun node =>
          (k.form.accumulated (data.pointAt test trial node) slot).sum).sum := by
  obtain ⟨hcount, hslots⟩ := lowerForm_slots hform hp
  rw [combine_eq_foldl hslots htest htrial hnodes haxes hshape, hcount]
  obtain ⟨hsize, hvalues⟩ := foldl_evaluateAt hform hp (boxCells nodes)
    (data.pointAt test trial) (Array.replicate k.form.outputSlots 0)
  refine ⟨hsize.trans Array.size_replicate, fun slot hslot => ?_⟩
  rw [hvalues, Array.getElem?_replicate, if_pos hslot, Option.map_some, zero_add]

end CompiledKernel

end Galerkin
