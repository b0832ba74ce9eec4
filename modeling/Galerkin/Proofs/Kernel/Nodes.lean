import Galerkin.Kernel.Entry
import Galerkin.Proofs.Steps

/-! # Nodes that an entry visits

An entry visits the nodes on the common support of a test and a trial function, if their supports meet on
every axis. For functions in range there is nothing that can fail.

* **`CompiledKernel.commonNodes_spec`** — the nodes an entry visits;
* **`CompiledKernel.testNodes_eq_ok`** — the nodes on the support of a test function;
* **`CompiledKernel.entry_of_commonNodes`**, **`CompiledKernel.exists_entry`** — entries of functions in range
  have a value. -/

namespace Galerkin

variable {α : Type}

/-- The supports of a tensor-product function, axis by axis. -/
def supportsOf (axes : List (AxisTables α)) (index : List Nat) : List Interval :=
  List.zipWith AxisTables.supportOf axes index

namespace CompiledKernel

/-- The intersections of the supports of two tensor-product functions, axis by axis. -/
def overlapsOf (vs us : List (AxisTables α)) (is js : List Nat) : List Interval :=
  List.zipWith Interval.intersect (supportsOf vs is) (supportsOf us js)

/-- **The nodes an entry visits** are those on the common support, if the supports meet on every axis. -/
theorem commonNodes_spec (n : Nat) {vs us : List (AxisTables α)} {is js : List Nat}
    (hi : List.Forall₂ (fun i v => i < v.dofs) is vs) (hj : List.Forall₂ (fun j u => j < u.dofs) js us)
    (hlen : vs.length = us.length) :
    (commonNodes n vs us is js = .ok none ∧ ∃ s ∈ overlapsOf vs us is js, s.isEmpty = true) ∨
      (commonNodes n vs us is js = .ok (some ((overlapsOf vs us is js).map (Interval.scale n))) ∧
        ∀ s ∈ overlapsOf vs us is js, s.isEmpty = false) := by
  induction hi generalizing us js with
  | nil => exact .inr ⟨rfl, fun s hs => nomatch hs⟩
  | @cons i v is vs hv _ ih =>
    cases hj with
    | nil => cases hlen
    | @cons j u js us hu hjs =>
      have hicheck : checkIndex .entryTest i v.dofs = .ok () :=
        checkIndex_eq_ok_iff.mpr ⟨Int.natCast_nonneg _, Int.ofNat_lt.mpr hv⟩
      have hjcheck : checkIndex .entryTrial j u.dofs = .ok () :=
        checkIndex_eq_ok_iff.mpr ⟨Int.natCast_nonneg _, Int.ofNat_lt.mpr hu⟩
      have hcons : overlapsOf (v :: vs) (u :: us) (i :: is) (j :: js) =
          (v.supportOf i).intersect (u.supportOf j) :: overlapsOf vs us is js := rfl
      rw [commonNodes, hicheck, hjcheck, hcons]
      cases hempty : ((v.supportOf i).intersect (u.supportOf j)).isEmpty with
      | true =>
        refine .inl ⟨?_, _, List.mem_cons_self .., hempty⟩
        simp only [hempty, if_true]
        rfl
      | false =>
        simp only [hempty]
        rcases ih hjs (Nat.succ.inj hlen) with ⟨hrest, s, hs, hsempty⟩ | ⟨hrest, hall⟩
        · rw [hrest]
          exact .inl ⟨rfl, s, List.mem_cons_of_mem _ hs, hsempty⟩
        · rw [hrest]
          exact .inr ⟨rfl, List.forall_mem_cons.mpr ⟨hempty, hall⟩⟩

/-- **The nodes on the support of a test function.** -/
theorem testNodes_eq_ok (n : Nat) {vs : List (AxisTables α)} {is : List Nat}
    (hi : List.Forall₂ (fun i v => i < v.dofs) is vs) :
    testNodes n vs is = .ok ((supportsOf vs is).map (Interval.scale n)) := by
  rw [testNodes, mapM_eq_ok_iff, supportsOf, List.map_zipWith]
  induction hi with
  | nil => exact .nil
  | @cons i v is vs hv _ ih =>
    have hcheck : checkIndex .loadTest i v.dofs = .ok () :=
      checkIndex_eq_ok_iff.mpr ⟨Int.natCast_nonneg _, Int.ofNat_lt.mpr hv⟩
    exact .cons (bind_eq_ok_iff.mpr ⟨(), hcheck, rfl⟩) ih

/-- There is an intersection for each axis. -/
theorem length_overlapsOf {vs us : List (AxisTables α)} {is js : List Nat} (hi : is.length = vs.length)
    (hj : js.length = us.length) (hlen : vs.length = us.length) :
    (overlapsOf vs us is js).length = vs.length := by
  rw [overlapsOf, supportsOf, supportsOf, List.length_zipWith, List.length_zipWith, List.length_zipWith, hi,
    hj, ← hlen, Nat.min_self, Nat.min_self]

section Entries

variable [Scalar α] {k : CompiledKernel α} {data : KernelData α} {test trial : List Nat}

/-- **The value of a bilinear form** is combined at the nodes that are visited; without a common support it is
zero. -/
theorem entry_of_commonNodes (harity : k.form.arity = .bilinear) {nodes : Option (List Interval)}
    (h : commonNodes data.pointsPerElement data.test data.trial test trial = .ok nodes) :
    k.entry data test trial =
      .ok (nodes.elim (Array.replicate k.program.slots Scalar.zero) (k.combine data test trial)) := by
  rw [entry, harity, h]
  cases nodes <;> rfl

/-- **An entry of functions in range has a value.** -/
theorem exists_entry (harity : k.form.arity = .bilinear)
    (hi : List.Forall₂ (fun i v => i < v.dofs) test data.test)
    (hj : List.Forall₂ (fun j u => j < u.dofs) trial data.trial)
    (hlen : data.test.length = data.trial.length) : ∃ sums, k.entry data test trial = .ok sums := by
  rcases commonNodes_spec data.pointsPerElement hi hj hlen with ⟨hnone, -⟩ | ⟨hsome, -⟩
  · exact ⟨_, entry_of_commonNodes harity hnone⟩
  · exact ⟨_, entry_of_commonNodes harity hsome⟩

end Entries

end CompiledKernel

end Galerkin
