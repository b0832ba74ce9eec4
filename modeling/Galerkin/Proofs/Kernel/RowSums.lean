import Galerkin.Proofs.Basis.Unity
import Galerkin.Proofs.Form.Standard
import Galerkin.Proofs.Kernel.Precomputed
import Mathlib.Algebra.BigOperators.Ring.List

/-! # Row sums

All functions of a basis add up to the function one, with derivatives zero, and so do their tensor products
at every node of a grid. A form that is additive in its trial function can be summed over all trial
functions node by node: what a row adds up to is the sum over the grid of the values for the function one.

* **`AxisTables.AddsToOne`**, **`sum_tensorDerivative`** — all functions add up to the function one;
* **`Form.AdditiveInTrial.rowSum`** — the row sums of a form that is additive in the trial function;
* **`CompiledKernel.row_spec`** — the rows of its kernel. -/

namespace Galerkin

/-- An array of one entry is that entry. -/
theorem eq_singleton {α : Type} {xs : Array α} {x : α} (hsize : xs.size = 1) (hget : xs[0]? = some x) :
    xs = #[x] := by
  obtain ⟨y, rfl⟩ := Array.size_eq_one_iff.mp hsize
  exact congrArg (#[·]) (Option.some.inj hget)

/-! ## (1) All functions of a basis -/

variable {K : Type} [Field K]

/-- **The derivatives of the function one** of several variables. -/
def unitDerivative : (dim : Nat) → (orders : List Int) → K
  | 0, _ => 1
  | dim + 1, orders => (if (orders.headD 0).toNat = 0 then 1 else 0) * unitDerivative dim orders.tail

/-- A derivative of positive order on some axis is zero. -/
theorem unitDerivative_eq_zero {dim axis : Nat} {orders : List Int} (haxis : axis < dim)
    (h : (orders.getD axis 0).toNat ≠ 0) : (unitDerivative dim orders : K) = 0 := by
  induction dim generalizing axis orders with
  | zero => exact absurd haxis (Nat.not_lt_zero _)
  | succ dim ih =>
    rw [unitDerivative]
    cases axis with
    | zero =>
      have hhead : (orders.headD 0).toNat ≠ 0 := by cases orders <;> exact h
      rw [if_neg hhead, zero_mul]
    | succ axis =>
      have htail : (orders.tail.getD axis 0).toNat ≠ 0 := by cases orders <;> exact h
      rw [ih (Nat.lt_of_succ_lt_succ haxis) htail, mul_zero]

/-- The value itself is one. -/
theorem unitDerivative_eq_one {dim : Nat} {orders : List Int} (h : ∀ order ∈ orders, order.toNat = 0) :
    (unitDerivative dim orders : K) = 1 := by
  induction dim generalizing orders with
  | zero => rfl
  | succ dim ih =>
    have hhead : (orders.headD 0).toNat = 0 := by
      cases orders with
      | nil => rfl
      | cons order orders => exact h order (List.mem_cons_self ..)
    rw [unitDerivative, if_pos hhead, ih fun order horder => h order (List.mem_of_mem_tail horder), one_mul]

/-- The function one has no slope. -/
theorem unitDerivative_firstOrders {d i : Nat} (hi : i < d) :
    (unitDerivative d ((StandardForm.firstOrders d i).map Int.ofNat) : K) = 0 := by
  refine unitDerivative_eq_zero hi ?_
  have horder : ((StandardForm.firstOrders d i).map Int.ofNat).getD i 0 = 1 := by
    simp [StandardForm.firstOrders, hi]
  rw [horder]
  exact Nat.one_ne_zero

/-- The function one has the value one. -/
theorem unitDerivative_replicate (d : Nat) :
    (unitDerivative d ((List.replicate d 0).map Int.ofNat) : K) = 1 := by
  refine unitDerivative_eq_one fun order horder => ?_
  rw [List.map_replicate] at horder
  rw [List.eq_of_mem_replicate horder]
  rfl

variable [LinearOrder K]

/-- **A table whose functions add up to one** at every node, with derivatives zero. -/
def AxisTables.AddsToOne (t : AxisTables K) : Prop :=
  ∀ q < t.table.points, ∀ k, ∑ f ∈ Finset.range t.dofs, t.table.get f q k = if k = 0 then 1 else 0

/-- **Tables of bases add up to one.** -/
theorem spaceTables_addToOne [ScalarText K] {bases : List (KnotVector K)} {maxDeriv : Nat}
    {grid : TensorQuadrature K} {tables : List (AxisTables K)}
    (h : spaceTables bases grid maxDeriv = .ok tables) : ∀ t ∈ tables, t.AddsToOne := by
  intro t ht q hq k
  obtain ⟨⟨kv, axis⟩, -, hstep⟩ := exists_mem_of_mapM h ht
  obtain ⟨table, htable, hstep⟩ := bind_eq_ok_iff.mp hstep
  obtain rfl := Except.ok.inj hstep
  have hdofs : (AxisTables.mk kv.meshSupport table).dofs = kv.dofs := kv.size_meshSupport
  rw [hdofs]
  exact kv.sum_evaluateDerivatives htable hq k

/-- **All tensor-product functions add up to the function one** at every node of the grid. -/
theorem sum_tensorDerivative {axes : List (AxisTables K)} (haxes : ∀ t ∈ axes, t.AddsToOne)
    {node : List Nat} (hnode : List.Forall₂ (· < ·) node (axes.map (·.table.points)))
    (orders : List Int) :
    ((boxCells ((axes.map (·.dofs)).map fun n => ⟨0, n⟩)).map fun index =>
      tensorDerivative axes index node orders).sum = unitDerivative axes.length orders := by
  induction axes generalizing node orders with
  | nil => simp [boxCells, tensorDerivative, unitDerivative]
  | cons t axes ih =>
    obtain ⟨q, node, hq, hrest, rfl⟩ := List.forall₂_cons_right_iff.mp hnode
    obtain ⟨ht, haxes⟩ := List.forall_mem_cons.mp haxes
    rw [List.length_cons, unitDerivative, ← ih haxes hrest, ← ht q hq (orders.headD 0).toNat,
      List.map_cons, List.map_cons, boxCells, List.map_flatMap, List.flatMap_def, List.sum_flatten,
      List.map_map]
    have hfirst : ∀ i, (((boxCells ((axes.map (·.dofs)).map fun n => ⟨0, n⟩)).map (i :: ·)).map fun index =>
        tensorDerivative (t :: axes) index (q :: node) orders).sum = t.table.get i q (orders.headD 0).toNat *
          ((boxCells ((axes.map (·.dofs)).map fun n => ⟨0, n⟩)).map fun index =>
            tensorDerivative axes index node orders.tail).sum := by
      intro i
      rw [List.map_map, ← List.sum_map_mul_left]
      rfl
    have hindices : (Interval.mk 0 t.dofs).indices = List.range t.dofs := List.range_eq_range'.symm
    simp only [Function.comp_def, hfirst, List.sum_map_mul_right, hindices]
    rfl

/-! ## (2) Forms that are additive in the trial function -/

/-- A point differs from that of another trial function in the trial function only. -/
theorem KernelData.pointAt_eq_withTrial (data : KernelData K) (test trial node : List Nat) :
    data.pointAt test trial node =
      (data.pointAt test test node).withTrial (tensorDerivative data.trial trial node) := by
  have hbasis : (data.pointAt test trial node).basis =
      ((data.pointAt test test node).withTrial (tensorDerivative data.trial trial node)).basis := by
    funext ⟨role, orders⟩
    cases role <;> rfl
  exact congrArg (fun basis => PointData.mk basis (data.pointAt test test node).field) hbasis

namespace Form

variable {form : Form K} {slot : Nat}

/-- **The sums of a form over the grid, for several trial functions,** add up to that for the sum of the
functions. -/
theorem AdditiveInTrial.sum_gridSum (h : form.AdditiveInTrial slot) (data : KernelData K)
    (test : List Nat) (trials : List (List Nat)) :
    (trials.map fun trial => form.gridSum data test trial slot).sum =
      ((gridNodes data.quadrature.shape).map fun node =>
        (form.accumulated ((data.pointAt test test node).withTrial fun orders =>
          (trials.map fun trial => tensorDerivative data.trial trial node orders).sum) slot).sum).sum := by
  have hswap := Multiset.sum_map_sum_map (trials : Multiset (List Nat)) (gridNodes data.quadrature.shape)
    (f := fun trial node => (form.accumulated (data.pointAt test trial node) slot).sum)
  simp only [Multiset.map_coe, Multiset.sum_coe] at hswap
  unfold gridSum
  rw [hswap]
  refine congrArg List.sum (List.map_congr_left fun node _ => ?_)
  rw [← h.sum]
  simp only [← data.pointAt_eq_withTrial]

/-- **A row sum of a form,** over all trial functions, is the sum over the grid of its values for the
function one. -/
theorem AdditiveInTrial.rowSum (h : form.AdditiveInTrial slot) {data : KernelData K}
    (haxes : ∀ t ∈ data.trial, t.AddsToOne)
    (hpoints : data.trial.map (·.table.points) = data.quadrature.shape)
    (hne : data.quadrature.shape ≠ []) (test : List Nat) :
    ((gridNodes (data.trial.map (·.dofs))).map fun trial => form.gridSum data test trial slot).sum =
      ((gridNodes data.quadrature.shape).map fun node => (form.accumulated
        ((data.pointAt test test node).withTrial (unitDerivative data.trial.length)) slot).sum).sum := by
  have hdofs : data.trial.map (·.dofs) ≠ [] := by
    rw [← hpoints] at hne
    exact fun hnil => hne (List.map_eq_nil_iff.mpr (List.map_eq_nil_iff.mp hnil))
  rw [h.sum_gridSum, gridNodes_eq_boxCells hdofs]
  refine congrArg List.sum (List.map_congr_left fun node hnode => ?_)
  rw [mem_gridNodes hne, ← hpoints] at hnode
  simp only [sum_tensorDerivative haxes hnode]

end Form

/-! ## (3) Rows of kernels -/

variable [IsStrictOrderedRing K] [Circular K] [ScalarText K]

namespace CompiledKernel

variable {form : Form K} {k : CompiledKernel K} {data : KernelData K} {bases : List (KnotVector K)}

/-- **A row of a bilinear form** with one slot that vanishes with either function and is additive in the
trial function: all entries have values, which add up to the sum over the grid for the function one. -/
theorem row_spec (hform : form.Valid) {dim : Nat} (hk : emit dim form = .ok k) {maxDeriv : Nat}
    (hdata : data.Tabulates (.shared bases) maxDeriv)
    (hrule : ∀ rule : ReferenceRule K, gaussRule data.pointsPerElement = .ok rule →
      ∀ x ∈ rule.nodes, -1 < x ∧ x < 1)
    (harity : form.arity = .bilinear) (hslots : form.outputSlots = 1)
    (hvanish : ∀ role, form.VanishesWithout role) (hadd : form.AdditiveInTrial 0) {test : List Nat}
    (htest : List.Forall₂ (fun i kv => i < kv.dofs) test bases) :
    ∃ entries : List Nat → K,
      (∀ trial ∈ gridNodes (bases.map (·.dofs)), k.entry data test trial = .ok #[entries trial]) ∧
      ((gridNodes (bases.map (·.dofs))).map entries).sum =
        ((gridNodes data.quadrature.shape).map fun node => (form.accumulated
          ((data.pointAt test test node).withTrial (unitDerivative bases.length)) 0).sum).sum := by
  obtain ⟨-, hne, ⟨hsupports, hpoints, -⟩, -⟩ := hdata.spec rfl hrule
  have hdofs : data.trial.map (·.dofs) = bases.map (·.dofs) := map_dofs_eq hsupports
  have hlength : data.trial.length = bases.length := by
    have hlen := congrArg List.length hsupports
    rwa [List.length_map, List.length_map] at hlen
  have hbases : bases.map (·.dofs) ≠ [] := by
    rintro hnil
    rw [← hpoints, List.map_eq_nil_iff.mp (hdofs.trans hnil)] at hne
    exact hne rfl
  refine ⟨fun trial => form.gridSum data test trial 0, fun trial htrial => ?_, ?_⟩
  · rw [mem_gridNodes hbases, List.forall₂_map_right_iff] at htrial
    obtain ⟨sums, hentry, hsize, hsums, -⟩ := entry_spec hform hk hdata rfl hrule harity
      (hvanish .trial) (hvanish .test) htest htrial
    rw [hentry, eq_singleton (hsize.trans hslots) (hsums 0 (by omega))]
  · rw [← hdofs, ← hlength]
    exact hadd.rowSum (spaceTables_addToOne hdata.trial) hpoints hne test

end CompiledKernel

end Galerkin
