import Galerkin.Proofs.Form.Vanishing
import Galerkin.Proofs.Index.Meeting
import Galerkin.Proofs.Kernel.Loops
import Galerkin.Proofs.Kernel.Nodes
import Galerkin.Proofs.Kernel.Tables
import Mathlib.Algebra.BigOperators.Group.Finset.Basic

/-! # Entries are sums over the whole grid

An entry visits only the nodes on the common support of its functions. A form that vanishes without test
functions and without trial functions contributes nothing elsewhere, so the entry is the sum over all
nodes of the grid.

* **`sum_boxCells_of_subset`** — a sum over a box is one over a larger box where the rest is zero;
* **`tensorDerivative_eq_zero`** — a tensor-product function vanishes outside its support;
* **`CompiledKernel.entry_eq_gridSum`** — entries are sums over the whole grid. -/

namespace Galerkin

/-! ## (1) Boxes of nodes -/

/-- **A node lies in a scaled interval** if its element lies in the interval. -/
theorem Interval.contains_scale {n : Nat} (hn : 0 < n) (s : Interval) (q : Nat) :
    (s.scale n).contains q = s.contains (q / n) := by
  rw [Bool.eq_iff_iff, contains_iff, contains_iff, scale, Nat.le_div_iff_mul_le hn,
    Nat.div_lt_iff_lt_mul hn, Nat.mul_comm n, Nat.mul_comm n]

/-- Supports meet on every axis if no intersection is empty. -/
theorem forall₂_meets {ss ts : List Interval} (hlen : ss.length = ts.length)
    (h : ∀ s ∈ List.zipWith Interval.intersect ss ts, s.isEmpty = false) :
    List.Forall₂ Interval.Meets ss ts := by
  refine List.forall₂_iff_zip.mpr ⟨hlen, fun {s t} hst => ?_⟩
  have hmap : (ss.zip ts).map (fun p => p.1.intersect p.2) = List.zipWith Interval.intersect ss ts :=
    List.map_zip_eq_zipWith
  have hmem : s.intersect t ∈ List.zipWith Interval.intersect ss ts :=
    hmap ▸ List.mem_map_of_mem hst
  by_contra hapart
  have hempty := h _ hmem
  rw [Interval.isEmpty_intersect.mpr hapart] at hempty
  cases hempty

/-- **A node lies over a box of elements,** of which every one has `n` nodes on each axis. -/
def LiesOver (n : Nat) (box : List Interval) (node : List Nat) : Prop :=
  List.Forall₂ (fun q s => s.contains (q / n) = true) node box

/-- The nodes of a scaled box are those that lie over the box. -/
theorem mem_boxCells_scale {n : Nat} (hn : 0 < n) {box : List Interval} {node : List Nat} :
    node ∈ boxCells (box.map (Interval.scale n)) ↔ LiesOver n box node := by
  rw [mem_boxCells, List.forall₂_map_right_iff, LiesOver]
  refine iff_of_eq (congrArg (List.Forall₂ · node box) (funext fun q => funext fun s => ?_))
  rw [← Interval.contains_scale hn, Interval.contains_iff]

/-- **A sum over a box is one over a larger box** if the terms outside the smaller one are zero. -/
theorem sum_boxCells_of_subset {M : Type} [AddCommMonoid M] {inner outer : List Interval}
    {f : List Nat → M} (hsub : ∀ c ∈ boxCells inner, c ∈ boxCells outer)
    (hzero : ∀ c ∈ boxCells outer, c ∉ boxCells inner → f c = 0) :
    ((boxCells inner).map f).sum = ((boxCells outer).map f).sum := by
  rw [← List.sum_toFinset f (nodup_boxCells inner), ← List.sum_toFinset f (nodup_boxCells outer)]
  refine Finset.sum_subset (fun c hc => ?_) fun c hc hout => ?_
  · exact List.mem_toFinset.mpr (hsub c (List.mem_toFinset.mp hc))
  · exact hzero c (List.mem_toFinset.mp hc) fun hin => hout (List.mem_toFinset.mpr hin)

variable {K : Type}

/-! ## (2) Functions outside their support -/

variable [Field K] [LinearOrder K]

/-- **A tensor-product function vanishes at the nodes outside its support.** -/
theorem tensorDerivative_eq_zero {n : Nat} {axes : List (AxisTables K)} {index node : List Nat}
    (hlocal : ∀ t ∈ axes, t.Localized n) (hindex : List.Forall₂ (fun i t => i < t.dofs) index axes)
    (hnode : List.Forall₂ (· < ·) node (axes.map (·.table.points)))
    (hout : ¬ LiesOver n (supportsOf axes index) node) (orders : List Int) :
    tensorDerivative axes index node orders = 0 := by
  induction hindex generalizing node orders with
  | nil =>
    obtain rfl := List.forall₂_nil_right_iff.mp hnode
    exact absurd .nil hout
  | @cons i t index axes hi _ ih =>
    obtain ⟨q, node, hq, hnodes, rfl⟩ := List.forall₂_cons_right_iff.mp hnode
    obtain ⟨ht, hlocal⟩ := List.forall_mem_cons.mp hlocal
    rw [tensorDerivative]
    by_cases hin : (t.supportOf i).contains (q / n) = true
    · rw [ih hlocal hnodes fun hrest => hout (.cons hin hrest), mul_zero]
    · rw [ht.get_eq_zero i hi q hq (Bool.not_eq_true _ ▸ hin), zero_mul]

/-- The nodes over the support of a function are nodes of the grid. -/
theorem LiesOver.lt_points {n : Nat} {axes : List (AxisTables K)} {index node : List Nat}
    (hn : 0 < n) (hlocal : ∀ t ∈ axes, t.Localized n)
    (hindex : List.Forall₂ (fun i t => i < t.dofs) index axes)
    (hin : LiesOver n (supportsOf axes index) node) :
    List.Forall₂ (· < ·) node (axes.map (·.table.points)) := by
  induction hindex generalizing node with
  | nil => exact List.forall₂_nil_right_iff.mp hin ▸ .nil
  | @cons i t index axes hi _ ih =>
    obtain ⟨q, node, hq, hnode, rfl⟩ := List.forall₂_cons_right_iff.mp hin
    obtain ⟨ht, hlocal⟩ := List.forall_mem_cons.mp hlocal
    have hlast := ht.last_le i hi
    rw [← Interval.contains_scale hn, Interval.contains_iff] at hq
    exact .cons (lt_of_lt_of_le hq.2 hlast) (ih hlocal hnode)

/-! ## (3) Entries -/

/-- **The sum over all nodes of the grid** of what a form accumulates in a slot, in storage order. -/
def Form.gridSum (form : Form K) (data : KernelData K) (test trial : List Nat) (slot : Nat) : K :=
  ((gridNodes data.quadrature.shape).map fun node =>
    (form.accumulated (data.pointAt test trial node) slot).sum).sum

/-- A node lies over the common support if it lies over both. -/
theorem liesOver_intersect {n : Nat} {ss ts : List Interval} (hlen : ss.length = ts.length)
    {node : List Nat} :
    LiesOver n (List.zipWith Interval.intersect ss ts) node ↔ LiesOver n ss node ∧ LiesOver n ts node := by
  unfold LiesOver
  induction ss generalizing ts node with
  | nil =>
    obtain rfl := List.eq_nil_of_length_eq_zero hlen.symm
    exact (and_self_iff).symm
  | cons s ss ih =>
    obtain ⟨t, ts, rfl⟩ := List.exists_cons_of_length_eq_add_one hlen.symm
    cases node with
    | nil => simp
    | cons q node =>
      rw [List.zipWith_cons_cons, List.forall₂_cons, List.forall₂_cons, List.forall₂_cons,
        ih (Nat.succ.inj hlen), Interval.contains_intersect, Bool.and_eq_true]
      exact and_and_and_comm

variable {form : Form K} {data : KernelData K} {test trial : List Nat}

/-- **Nothing is lost outside a box of elements** where nothing is accumulated. -/
theorem sum_box_eq_gridSum {n : Nat} (hn : 0 < n) (hne : data.quadrature.shape ≠ [])
    {box : List Interval} {slot : Nat}
    (hbox : ∀ node, LiesOver n box node → List.Forall₂ (· < ·) node data.quadrature.shape)
    (hzero : ∀ node, List.Forall₂ (· < ·) node data.quadrature.shape → ¬ LiesOver n box node →
      (form.accumulated (data.pointAt test trial node) slot).sum = 0) :
    ((boxCells (box.map (Interval.scale n))).map fun node =>
      (form.accumulated (data.pointAt test trial node) slot).sum).sum =
        form.gridSum data test trial slot := by
  have hgrid := fun node => (mem_gridNodes hne : node ∈ _ ↔ _)
  rw [gridNodes_eq_boxCells hne] at hgrid
  rw [Form.gridSum, gridNodes_eq_boxCells hne]
  refine sum_boxCells_of_subset (fun node hnode => ?_) fun node hnode hout => ?_
  · exact (hgrid node).mpr (hbox node ((mem_boxCells_scale hn).mp hnode))
  · exact hzero node ((hgrid node).mp hnode) fun hin => hout ((mem_boxCells_scale hn).mpr hin)

/-! ## (4) The theorem -/

/-- The support of a tensor-product function of some bases, axis by axis. -/
def KnotVector.tensorSupport (bases : List (KnotVector K)) (index : List Nat) : List Interval :=
  List.zipWith (fun kv i => kv.meshSupport.getD i ⟨0, 0⟩) bases index

/-- Tables have the supports of their bases. -/
theorem supportsOf_eq {bases : List (KnotVector K)} {tables : List (AxisTables K)}
    (h : tables.map (·.support) = bases.map (·.meshSupport)) (index : List Nat) :
    supportsOf tables index = KnotVector.tensorSupport bases index := by
  have htables : List.zipWith (fun (s : Array Interval) i => s.getD i ⟨0, 0⟩) (tables.map (·.support))
      index = supportsOf tables index := List.zipWith_map_left
  have hbases : List.zipWith (fun (s : Array Interval) i => s.getD i ⟨0, 0⟩)
      (bases.map (·.meshSupport)) index = KnotVector.tensorSupport bases index := List.zipWith_map_left
  rw [h] at htables
  exact htables.symm.trans hbases

variable [IsStrictOrderedRing K] [Circular K] [ScalarText K]

/-- **The value of a bilinear form** that vanishes without trial and without test functions is the sum
over the whole grid; it is zero where the supports do not meet on every axis. -/
theorem CompiledKernel.entry_spec (hform : form.Valid) {dim : Nat} {k : CompiledKernel K}
    (hk : emit dim form = .ok k) {bases : KernelBases K} {maxDeriv : Nat}
    (hdata : data.Tabulates bases maxDeriv)
    (hmesh : bases.trial.map (·.mesh) = bases.test.map (·.mesh))
    (hrule : ∀ rule : ReferenceRule K, gaussRule data.pointsPerElement = .ok rule →
      ∀ x ∈ rule.nodes, -1 < x ∧ x < 1)
    (harity : form.arity = .bilinear) (hvtrial : form.VanishesWithout .trial)
    (hvtest : form.VanishesWithout .test)
    (hi : List.Forall₂ (fun i kv => i < kv.dofs) test bases.test)
    (hj : List.Forall₂ (fun j kv => j < kv.dofs) trial bases.trial) :
    ∃ sums, k.entry data test trial = .ok sums ∧ sums.size = form.outputSlots ∧
      (∀ slot < form.outputSlots, sums[slot]? = some (form.gridSum data test trial slot)) ∧
      (¬ List.Forall₂ Interval.Meets (KnotVector.tensorSupport bases.test test)
          (KnotVector.tensorSupport bases.trial trial) →
        ∀ slot < form.outputSlots, sums[slot]? = some 0) := by
  obtain ⟨rfl, hp, -⟩ := emit_eq_ok hk
  have hcount := (lowerForm_slots hform hp).1
  obtain ⟨hn, hne, ⟨hutables, hupoints, hulocal⟩, hvtables, hvpoints, hvlocal⟩ := hdata.spec hmesh hrule
  have hi' := forall₂_dofs hvtables hi
  have hj' := forall₂_dofs hutables hj
  have hpoints : data.trial.map (·.table.points) = data.test.map (·.table.points) :=
    hupoints.trans hvpoints.symm
  have haxes : data.trial.length = data.test.length := by
    have hlen := congrArg List.length hpoints
    rwa [List.length_map, List.length_map] at hlen
  have hsupports : (supportsOf data.test test).length = (supportsOf data.trial trial).length := by
    rw [supportsOf, supportsOf, List.length_zipWith, List.length_zipWith, hi'.length_eq,
      hj'.length_eq, haxes]
  have hbox : ∀ node, LiesOver data.pointsPerElement (overlapsOf data.test data.trial test trial) node →
      List.Forall₂ (· < ·) node data.quadrature.shape := fun node hnode =>
    hvpoints ▸ ((liesOver_intersect hsupports).mp hnode).1.lt_points hn hvlocal hi'
  have hzero : ∀ slot node, List.Forall₂ (· < ·) node data.quadrature.shape →
      ¬ LiesOver data.pointsPerElement (overlapsOf data.test data.trial test trial) node →
      (k.form.accumulated (data.pointAt test trial node) slot).sum = 0 := by
    intro slot node hnode hout
    rw [overlapsOf, liesOver_intersect hsupports] at hout
    by_cases hin : LiesOver data.pointsPerElement (supportsOf data.test test) node
    · exact hvtrial.sum_accumulated (fun orders => tensorDerivative_eq_zero hulocal hj'
        (hupoints ▸ hnode) (fun h => hout ⟨hin, h⟩) orders) slot
    · exact hvtest.sum_accumulated (fun orders => tensorDerivative_eq_zero hvlocal hi'
        (hvpoints ▸ hnode) hin orders) slot
  rcases commonNodes_spec data.pointsPerElement hi' hj' haxes.symm with ⟨hnone, s, hs, hempty⟩ |
    ⟨hsome, hall⟩
  · -- There is no node to visit, and nothing is accumulated anywhere.
    have hentry : k.entry data test trial = .ok (Array.replicate k.program.slots 0) := by
      rw [entry_of_commonNodes harity hnone, Option.elim_none, Scalar.zero_exact]
    have hslots : ∀ slot < k.form.outputSlots, (Array.replicate k.program.slots (0 : K))[slot]? =
        some 0 := fun slot hslot => by
      rw [hcount, Array.getElem?_replicate, if_pos hslot]
    refine ⟨_, hentry, Array.size_replicate.trans hcount, fun slot hslot => ?_, fun _ => hslots⟩
    have hnil : boxCells ((overlapsOf data.test data.trial test trial).map
        (Interval.scale data.pointsPerElement)) = [] :=
      boxCells_eq_nil ⟨_, List.mem_map_of_mem hs, Nat.mul_le_mul_left _ (Interval.isEmpty_iff.mp hempty)⟩
    rw [hslots slot hslot, ← sum_box_eq_gridSum hn hne hbox (hzero slot), hnil, List.map_nil,
      List.sum_nil]
  · have hentry : k.entry data test trial = .ok (k.combine data test trial
        ((overlapsOf data.test data.trial test trial).map (Interval.scale data.pointsPerElement))) :=
      entry_of_commonNodes harity hsome
    have hlength : ((overlapsOf data.test data.trial test trial).map
        (Interval.scale data.pointsPerElement)).length = data.test.length :=
      (List.length_map _).trans (length_overlapsOf hi'.length_eq hj'.length_eq haxes.symm)
    obtain ⟨hsize, hvalues⟩ := combine_spec hform hp hi'.length_eq hj'.length_eq hlength haxes hvpoints
    refine ⟨_, hentry, hsize, fun slot hslot => ?_, fun hapart => absurd ?_ hapart⟩
    · rw [hvalues slot hslot, sum_box_eq_gridSum hn hne hbox (hzero slot)]
    · rw [← supportsOf_eq hvtables, ← supportsOf_eq hutables]
      exact forall₂_meets hsupports hall

/-- **The value of a linear form** that vanishes without test functions is the sum over the whole grid. -/
theorem CompiledKernel.entry1_spec (hform : form.Valid) {dim : Nat} {k : CompiledKernel K}
    (hk : emit dim form = .ok k) {bases : KernelBases K} {maxDeriv : Nat}
    (hdata : data.Tabulates bases maxDeriv)
    (hmesh : bases.trial.map (·.mesh) = bases.test.map (·.mesh))
    (hrule : ∀ rule : ReferenceRule K, gaussRule data.pointsPerElement = .ok rule →
      ∀ x ∈ rule.nodes, -1 < x ∧ x < 1)
    (harity : form.arity = .linear) (hvtest : form.VanishesWithout .test)
    (hi : List.Forall₂ (fun i kv => i < kv.dofs) test bases.test) :
    ∃ sums, k.entry1 data test = .ok sums ∧ sums.size = form.outputSlots ∧
      ∀ slot < form.outputSlots, sums[slot]? = some (form.gridSum data test test slot) := by
  obtain ⟨rfl, hp, -⟩ := emit_eq_ok hk
  obtain ⟨hn, hne, ⟨-, hupoints, -⟩, hvtables, hvpoints, hvlocal⟩ := hdata.spec hmesh hrule
  have hi' := forall₂_dofs hvtables hi
  have haxes : data.trial.length = data.test.length := by
    have hlen := congrArg List.length (hupoints.trans hvpoints.symm)
    rwa [List.length_map, List.length_map] at hlen
  have hcheck : (k.form.arity == .linear) = true := beq_iff_eq.mpr harity
  have hentry : k.entry1 data test = .ok (k.combine data test test
      ((supportsOf data.test test).map (Interval.scale data.pointsPerElement))) := by
    rw [entry1, hcheck, testNodes_eq_ok data.pointsPerElement hi']
    rfl
  have hlength : ((supportsOf data.test test).map
      (Interval.scale data.pointsPerElement)).length = data.test.length := by
    rw [List.length_map, supportsOf, List.length_zipWith, hi'.length_eq, Nat.min_self]
  obtain ⟨hsize, hvalues⟩ := combine_spec hform hp hi'.length_eq (hi'.length_eq.trans haxes.symm)
    hlength haxes hvpoints
  refine ⟨_, hentry, hsize, fun slot hslot => ?_⟩
  rw [hvalues slot hslot, sum_box_eq_gridSum hn hne]
  · exact fun node hnode => hvpoints ▸ LiesOver.lt_points hn hvlocal hi' hnode
  · exact fun node hnode hout => hvtest.sum_accumulated (fun orders =>
      tensorDerivative_eq_zero hvlocal hi' (hvpoints ▸ hnode) hout orders) slot

/-- **Support restriction loses nothing.** Take a form of a builder, its kernel, and data with the tables of
bases on the same meshes, with any fields; let the reference nodes lie strictly inside the reference
interval. If the form is bilinear and vanishes without trial and without test functions, its value for a
pair of functions is in every slot the sum over all nodes of the grid, and zero if the supports do not meet
on some axis. If it is linear and vanishes without test functions, so is its value for a function. The
bilinear standard forms are of this kind. -/
theorem CompiledKernel.entries_eq_gridSum {b : FormBuilder K} (hb : b.Reachable)
    (hfinal : b.finalize = .ok form) {dim : Nat} {k : CompiledKernel K} (hk : emit dim form = .ok k)
    {bases : KernelBases K} {maxDeriv : Nat} (hdata : data.Tabulates bases maxDeriv)
    (hmesh : bases.trial.map (·.mesh) = bases.test.map (·.mesh))
    (hrule : ∀ rule : ReferenceRule K, gaussRule data.pointsPerElement = .ok rule →
      ∀ x ∈ rule.nodes, -1 < x ∧ x < 1) :
    (form.arity = .bilinear → form.VanishesWithout .trial → form.VanishesWithout .test →
      ∀ test trial, List.Forall₂ (fun i kv => i < kv.dofs) test bases.test →
        List.Forall₂ (fun j kv => j < kv.dofs) trial bases.trial →
        ∃ sums, k.entry data test trial = .ok sums ∧ sums.size = form.outputSlots ∧
          (∀ slot < form.outputSlots, sums[slot]? = some (form.gridSum data test trial slot)) ∧
          (¬ List.Forall₂ Interval.Meets (KnotVector.tensorSupport bases.test test)
              (KnotVector.tensorSupport bases.trial trial) →
            ∀ slot < form.outputSlots, sums[slot]? = some 0)) ∧
    (form.arity = .linear → form.VanishesWithout .test →
      ∀ test, List.Forall₂ (fun i kv => i < kv.dofs) test bases.test →
        ∃ sums, k.entry1 data test = .ok sums ∧ sums.size = form.outputSlots ∧
          ∀ slot < form.outputSlots, sums[slot]? = some (form.gridSum data test test slot)) ∧
    ∀ spec ∈ (StandardForm.bilinearForms : List (String × FormSpec K)), ∀ d ∈ [2, 3],
      ∃ standard, spec.2.build d = .ok standard ∧ standard.arity = .bilinear ∧
        ∀ role, standard.VanishesWithout role := by
  have hform := hb.valid.form hfinal
  refine ⟨fun harity htrial htest test trial hi hj => ?_, fun harity htest test hi => ?_, ?_⟩
  · exact entry_spec hform hk hdata hmesh hrule harity htrial htest hi hj
  · exact entry1_spec hform hk hdata hmesh hrule harity htest hi
  · exact fun spec hspec d hd => StandardForm.vanishesWithout hspec hd

/-- Circular functions of rational numbers near a quarter turn, by the tangents there. -/
instance quarterTurn : Circular ℚ where
  cos x := 11 / 7 - x
  sin _ := 1
  pi := 22 / 7

/-- The Gauss rule with two nodes. -/
theorem gaussRule_two : ∃ rule : ReferenceRule ℚ, gaussRule 2 = .ok rule ∧
    ∀ x ∈ rule.nodes, -1 < x ∧ x < 1 := by
  obtain ⟨rule, hrule, hall⟩ := exists_eq_ok_of_any (x := gaussRule (α := ℚ) 2)
    (p := fun rule => rule.nodes.all fun x => decide (-1 < x) && decide (x < 1)) (by decide +kernel)
  refine ⟨rule, hrule, fun x hx => ?_⟩
  simpa using List.all_eq_true.mp hall x hx

/-- Functions of degree one on two elements. -/
def hatKnots : KnotVector ℚ := ⟨1, #[0, 0, 1 / 2, 1, 1], by decide +kernel⟩

/-- Linear functions on one element. -/
def unitKnots : KnotVector ℚ := ⟨1, #[0, 0, 1, 1], by decide +kernel⟩

/-- A bilinear form over the rational numbers: the product of trial and test function. -/
def productForm : Form ℚ where
  name := "product"
  dim := 2
  arity := .bilinear
  components := 1
  symmetric := false
  fields := []
  accumulations := [⟨0, some (.binary .mul (.deriv "u" [0, 0]) (.deriv "v" [0, 0]))⟩]
  requirements := {}

/-- A linear form over the rational numbers: the test function. -/
def valueForm : Form ℚ where
  name := "value"
  dim := 2
  arity := .linear
  components := 1
  symmetric := false
  fields := []
  accumulations := [⟨0, some (.deriv "v" [0, 0])⟩]
  requirements := {}

/-- A bilinear form over the rational numbers: a derivative of the trial function times the test function
and the quadrature weight. -/
def weightForm : Form ℚ where
  name := "weighted"
  dim := 2
  arity := .bilinear
  components := 1
  symmetric := false
  fields := [⟨0, "weight", .scalar, false, .builtin .weight⟩]
  accumulations := [⟨0, some (.binary .mul (.field "weight" .scalar false)
    (.binary .mul (.deriv "u" [1, 0]) (.deriv "v" [0, 0])))⟩]
  requirements := { weight := true, jacobian := true, maxDeriv := 1 }

/-- It is the form of a builder. -/
theorem exists_builder_weightForm : ∃ b : FormBuilder ℚ, b.Reachable ∧ b.finalize = .ok weightForm := by
  have hweight : (Expr.field "weight" .scalar false : Expr ℚ).Built :=
    .field (e := .field "weight" .scalar false) (rfl : Expr.ofField "weight" .scalar false = _)
  have htrial : (Expr.deriv "u" [1, 0] : Expr ℚ).Built := .deriv (rfl : Expr.ofDeriv "u" [1, 0] = _)
  have htest : (Expr.deriv "v" [0, 0] : Expr ℚ).Built := .deriv (rfl : Expr.ofDeriv "v" [0, 0] = _)
  have hsum : (Expr.binary .mul (.field "weight" .scalar false)
      (.binary .mul (.deriv "u" [1, 0]) (.deriv "v" [0, 0])) : Expr ℚ).Built :=
    .arith hweight (.arith htrial htest (rfl : Operand.arith .mul _ _ = _))
      (rfl : Operand.arith .mul _ _ = _)
  exact ⟨_, .call (c := .addToSlot 0 (some _)) (.call (c := .quadratureWeight)
    (.make (rfl : FormBuilder.make "weighted" 2 .bilinear 1 false = _)) fun _ h => by cases h)
    fun e he => Option.some.inj he ▸ hsum, rfl⟩

/-- Weights at the nodes of two elements on the first axis and one on the second. -/
def eightWeights : GridArray ℚ := ⟨[4, 2], 8, 1, #[1, 2, 3, 5, 7, 11, 13, 17]⟩

/-- The entry of two hats that overlap on one of two elements is the sum over the nodes of both elements, and so
is that of a single hat; the entry of the first hat and the last one, which do not meet, is zero. The weights are
the values of an array. -/
theorem entries_eq_gridSum_weightForm : ∃ data : KernelData ℚ,
    data.Tabulates (.shared [hatKnots, unitKnots]) 1 ∧ data.pointsPerElement = 2 ∧
      data.fields = #[eightWeights] ∧
      (∃ k, CompiledKernel.emit 2 weightForm = .ok k ∧
        (∃ sums, k.entry data [0, 1] [1, 1] = .ok sums ∧
          sums[0]? = some (weightForm.gridSum data [0, 1] [1, 1] 0)) ∧
        ∃ sums, k.entry data [0, 1] [2, 1] = .ok sums ∧
          sums[0]? = some (weightForm.gridSum data [0, 1] [2, 1] 0) ∧ sums[0]? = some 0) ∧
      ∃ k sums, CompiledKernel.emit 2 valueForm = .ok k ∧ k.entry1 data [0, 1] = .ok sums ∧
        sums[0]? = some (valueForm.gridSum data [0, 1] [0, 1] 0) := by
  obtain ⟨rule, hgauss, hnodes⟩ := gaussRule_two
  obtain ⟨data, hdata, hpoints, hfields⟩ := @exists_tabulates ℚ _ _ _ _ _ (.shared [hatKnots, unitKnots])
    (List.cons_ne_nil _ _) rfl 2 rule hgauss hnodes 1 #[eightWeights]
  have hrule : ∀ r : ReferenceRule ℚ, gaussRule data.pointsPerElement = .ok r →
      ∀ x ∈ r.nodes, -1 < x ∧ x < 1 := by
    intro r hr
    rw [hpoints] at hr
    exact Except.ok.inj (hgauss.symm.trans hr) ▸ hnodes
  have htest : (Expr.deriv "v" [0, 0] : Expr ℚ).Built := .deriv (rfl : Expr.ofDeriv "v" [0, 0] = _)
  have hvalue : ∃ b : FormBuilder ℚ, b.Reachable ∧ b.finalize = .ok valueForm :=
    ⟨_, .call (c := .addToSlot 0 (some _)) (.make (rfl : FormBuilder.make "value" 2 .linear 1 false
      = _)) fun e he => Option.some.inj he ▸ htest, rfl⟩
  have hindex : ∀ i < 3, List.Forall₂ (fun j (kv : KnotVector ℚ) => j < kv.dofs) [i, 1]
      [hatKnots, unitKnots] := fun i hi => .cons hi (.cons (by decide) .nil)
  have hapart : ¬ List.Forall₂ Interval.Meets (KnotVector.tensorSupport [hatKnots, unitKnots] [0, 1])
      (KnotVector.tensorSupport [hatKnots, unitKnots] [2, 1]) := by
    decide +kernel
  obtain ⟨b, hb, hfinal⟩ := exists_builder_weightForm
  obtain ⟨b', hb', hfinal'⟩ := hvalue
  obtain ⟨k, hk⟩ := exists_eq_ok (x := CompiledKernel.emit 2 weightForm) (by decide +kernel)
  obtain ⟨k', hk'⟩ := exists_eq_ok (x := CompiledKernel.emit 2 valueForm) (by decide +kernel)
  have hentries := (CompiledKernel.entries_eq_gridSum hb hfinal hk hdata rfl hrule).1 rfl
    (Form.vanishesWithout_of_vanishes rfl) (Form.vanishesWithout_of_vanishes rfl)
  obtain ⟨sums, hentry, -, hsums, -⟩ := hentries [0, 1] [1, 1] (hindex 0 (by decide)) (hindex 1 (by decide))
  obtain ⟨zeros, hzero, -, hall, hzeros⟩ :=
    hentries [0, 1] [2, 1] (hindex 0 (by decide)) (hindex 2 (by decide))
  obtain ⟨sums', hentry', -, hsums'⟩ :=
    (CompiledKernel.entries_eq_gridSum hb' hfinal' hk' hdata rfl hrule).2.1 rfl
      (Form.vanishesWithout_of_vanishes rfl) [0, 1] (hindex 0 (by decide))
  exact ⟨data, hdata, hpoints, hfields, ⟨k, hk, ⟨sums, hentry, hsums 0 (by decide)⟩,
    zeros, hzero, hall 0 (by decide), hzeros hapart 0 (by decide)⟩, k', sums', hk', hentry', hsums' 0 (by decide)⟩

end Galerkin
