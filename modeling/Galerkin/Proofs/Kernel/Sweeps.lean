import Galerkin.Proofs.Geometry.Grids
import Galerkin.Proofs.Kernel.Loops

/-! # One numbering of grid nodes

The nested loops over a box number the nodes they visit by Horner's rule, an array over a grid is filled in the
order of an odometer, and a node of it is found by distances. All of them number the nodes alike, in any
arithmetic: nothing is assumed here of the numbers that are computed at the nodes.

* **`nodeProducts`** — the products of table entries that the loops form on the way to a node;
* **`CompiledKernel.sweep_eq_foldl_boxNumbers`** — the loops visit the numbers of a box in order;
* **`node_numbering`** — the numbering of nodes wherever a grid is walked over. -/

namespace Galerkin

open MultiIndex

/-! ## (1) Nested loops -/

variable {α : Type} [Scalar α]

/-- **The products that the loops form on the way to a node:** axis by axis, every load of a program is multiplied
by the factor of its table there. -/
def nodeProducts (loads : List BasisLoad) :
    (axes : List (LoopAxis α)) → (axis : Nat) → (index : List Nat) → (products : Array α) → Array α
  | a :: axes, axis, q :: index, products =>
    nodeProducts loads axes (axis + 1) index (Array.zipWith (· * ·) products
      (loads.map (CompiledKernel.loadFactor a.1.1 a.1.2 a.2.1.1 a.2.1.2 axis q)).toArray)
  | _, _, _, products => products

/-- What the loops know of the axes of some data. -/
def loopAxes (data : KernelData α) (test trial : List Nat) (box : List Interval) : List (LoopAxis α) :=
  (data.trial.zip data.test).zip ((test.zip trial).zip box)

namespace CompiledKernel

/-- **Nested loops visit the cells of a box,** one after the other, and evaluate the program at each with the
products formed on the way. They number the cell by Horner's rule. -/
theorem sweep_eq_foldl_cells (p : Program α) (arrays : Array (GridArray α)) (loads : List BasisLoad)
    (axes : List (LoopAxis α)) : ∀ (axis node : Nat) (products sums : Array α),
      sweep p arrays ((axes.zipIdx axis).map fun a =>
        axisSlice loads a.1.1.1 a.1.1.2 a.1.2.1.1 a.1.2.1.2 a.2 a.1.2.2) node products sums =
      (boxCells (axes.map (·.2.2))).foldl (fun sums cell => p.evaluate
        (fun slot => (nodeProducts loads axes axis cell products).getD slot Scalar.zero)
        (fieldValue arrays (linearIndexFrom node cell (axes.map (·.1.2.table.points)))) sums) sums := by
  induction axes with
  | nil => exact fun _ _ _ _ => rfl
  | cons a axes ih =>
    intro axis node products sums
    simp only [List.zipIdx_cons, List.map_cons, sweep, axisSlice, boxCells, List.foldl_flatMap, List.foldl_map]
    -- Each pass of the outer loop is a loop over the later axes.
    refine List.foldl_ext _ _ _ fun sums q _ => ?_
    exact ih (axis + 1) _ _ sums

/-- **The loops visit the numbers of a box in order,** if the box is inside the grid of the tables. -/
theorem sweep_eq_foldl_boxNumbers {data : KernelData α} {test trial : List Nat} {box : List Interval}
    (haxes : data.trial.length = data.test.length) (htest : test.length = data.test.length)
    (htrial : trial.length = data.test.length)
    (hbox : List.Forall₂ (fun (s : Interval) n => s.last ≤ n) box (data.test.map (·.table.points)))
    (p : Program α) (arrays : Array (GridArray α)) (loads : List BasisLoad) (products sums : Array α) :
    sweep p arrays (axisSlices loads data test trial box) 0 products sums =
      (boxNumbers (data.test.map (·.table.points)) box).foldl (fun sums n => p.evaluate
        (fun slot => (nodeProducts loads (loopAxes data test trial box) 0
          (MultiIndex.multiIndex n (data.test.map (·.table.points))) products).getD slot Scalar.zero)
        (fieldValue arrays n) sums) sums := by
  have hlength : box.length = data.test.length := hbox.length_eq.trans (List.length_map _)
  obtain ⟨-, htests, -, -, hboxes⟩ := map_zip_columns data.trial data.test test trial box haxes.symm
    (htest.trans haxes.symm) (htrial.trans haxes.symm) (hlength.trans haxes.symm)
  have hextents : (loopAxes data test trial box).map (·.1.2.table.points) =
      data.test.map (·.table.points) := by
    conv_rhs => rw [← htests, List.map_map]
    rfl
  have hcells : (loopAxes data test trial box).map (·.2.2) = box := hboxes
  have hloops := sweep_eq_foldl_cells p arrays loads (loopAxes data test trial box) 0 0 products sums
  rw [hextents, hcells, boxCells_eq_map_boxNumbers hbox, List.foldl_map] at hloops
  refine hloops.trans (List.foldl_ext _ _ _ fun sums n hn => ?_)
  -- A node of the box is reached with its own number.
  have hnumber := (multiIndex_spec (mem_boxNumbers.mp hn).1).2
  rw [show linearIndexFrom 0 (MultiIndex.multiIndex n (data.test.map (·.table.points)))
    (data.test.map (·.table.points)) = n from hnumber]

end CompiledKernel

/-! ## (2) The numbering -/

/-- **One numbering of grid nodes.** A loop over a grid calls once for each number below its count of nodes, which
is a word, in order, with the digits of the number in the extents, the last axis fastest; so does every walk over
its first nodes, and the digits are below the extents and number the node by Horner's rule. For grids without axes
or with an axis without nodes there is no call. The position of a node in an array is the sum of its digits times
the distances along the axes, as a word, and exactly if the entries can be counted in words. Images and Jacobians
over a grid are held at the number of the node with the coordinates that its digits select. The nested loops over
a box inside the grid of some tables evaluate their program at the numbers whose digits are in the box, each once
and in order, and read every field at that number. -/
theorem node_numbering [Circular α] :
    (∀ shape : List Nat,
      nodeCalls shape =
        (List.range (nodeCountWord shape).toNat).map (fun n => (n, MultiIndex.multiIndex n shape)) ∧
      nodeCountWord shape = UInt64.ofNat (nodeCount shape) ∧
      (∀ count ≤ nodeCount shape,
        gridWalk count shape = (List.range count).map (MultiIndex.multiIndex · shape)) ∧
      ∀ n < nodeCount shape,
        List.Forall₂ (· < ·) (MultiIndex.multiIndex n shape) shape ∧
        linearIndex (MultiIndex.multiIndex n shape) shape = n) ∧
    (∀ g : GridArray α, ∀ n < nodeCount g.shape,
      UInt64.ofNat n * UInt64.ofNat g.components = ((List.range g.shape.length).map fun d =>
        UInt64.ofNat ((MultiIndex.multiIndex n g.shape).getD d 0) * g.stride d).sum ∧
      (nodeCount g.shape * g.components < UInt64.size →
        n * g.components = ((List.range g.shape.length).map fun d =>
          (MultiIndex.multiIndex n g.shape).getD d 0 * (g.stride d).toNat).sum)) ∧
    (∀ (map : GeometryMap α) (grid : TensorQuadrature α), map.Made → grid.dim = map.dim →
      ∃ images jacobians, map.onGrid grid = .ok images ∧ map.jacobianOnGrid grid = .ok jacobians ∧
        map.HeldBy grid images jacobians) ∧
    ∀ (data : KernelData α) (test trial : List Nat) (box : List Interval),
      data.trial.length = data.test.length → test.length = data.test.length → trial.length = data.test.length →
      List.Forall₂ (fun (s : Interval) n => s.last ≤ n) box (data.test.map (·.table.points)) →
      let shape := data.test.map (·.table.points)
      (boxNumbers shape box).Pairwise (· < ·) ∧
      (∀ n, n ∈ boxNumbers shape box ↔ n < product shape ∧
        List.Forall₂ (fun i s => s.first ≤ i ∧ i < s.last) (MultiIndex.multiIndex n shape) box) ∧
      ∀ (p : Program α) (arrays : Array (GridArray α)) (loads : List BasisLoad) (products sums : Array α),
        CompiledKernel.sweep p arrays (CompiledKernel.axisSlices loads data test trial box) 0 products sums =
          (boxNumbers shape box).foldl (fun sums n => p.evaluate
            (fun slot => (nodeProducts loads (loopAxes data test trial box) 0 (MultiIndex.multiIndex n shape)
              products).getD slot Scalar.zero)
            (CompiledKernel.fieldValue arrays n) sums) sums := by
  refine ⟨fun shape => ⟨nodeCalls_eq_map shape, nodeCountWord_eq shape, fun _ => gridWalk_eq_map,
      fun _ => multiIndex_node⟩, fun g _ hn => ⟨g.sum_stride hn, g.sum_toNat_stride hn⟩,
    fun _ _ hmap hdim => hmap.grid_values hdim, fun data test trial box haxes htest htrial hbox => ?_⟩
  exact ⟨pairwise_boxNumbers _ _, fun _ => mem_boxNumbers,
    CompiledKernel.sweep_eq_foldl_boxNumbers haxes htest htrial hbox⟩

/-- A grid of two by three nodes. -/
def smallGrid : TensorQuadrature Float := ⟨[⟨1, #[0, 1], #[1, 1]⟩, ⟨1, #[0, 1, 2], #[1, 1, 1]⟩]⟩

/-- Tables over this grid. -/
def smallTables : KernelData Float :=
  { KernelData.uninitialized with
    trial := [⟨#[⟨0, 2⟩], ⟨1, 2, 0, #[]⟩⟩, ⟨#[⟨0, 3⟩], ⟨1, 3, 0, #[]⟩⟩]
    test := [⟨#[⟨0, 2⟩], ⟨1, 2, 0, #[]⟩⟩, ⟨#[⟨0, 3⟩], ⟨1, 3, 0, #[]⟩⟩] }

/-- **The numbering of a grid of two by three nodes,** and of a box of four of them. -/
theorem node_numbering_small :
    nodeCalls [2, 3] = [(0, [0, 0]), (1, [0, 1]), (2, [0, 2]), (3, [1, 0]), (4, [1, 1]), (5, [1, 2])] ∧
      nodeCalls [2, 0] = [] ∧ nodeCalls [] = [] ∧
      5 * 2 = 1 * 6 + (2 * 2 + 0) ∧
      (∃ images jacobians, (GeometryMap.identity 2 : GeometryMap Float).onGrid smallGrid = .ok images ∧
        (GeometryMap.identity 2 : GeometryMap Float).jacobianOnGrid smallGrid = .ok jacobians ∧
        (GeometryMap.identity 2 : GeometryMap Float).HeldBy smallGrid images jacobians) ∧
      boxNumbers [2, 3] [⟨0, 2⟩, ⟨1, 3⟩] = [1, 2, 4, 5] ∧
      ∀ (p : Program Float) (arrays : Array (GridArray Float)) (products sums : Array Float),
        CompiledKernel.sweep p arrays
            (CompiledKernel.axisSlices [] smallTables [0, 0] [0, 0] [⟨0, 2⟩, ⟨1, 3⟩]) 0 products sums =
          [1, 2, 4, 5].foldl (fun sums n => p.evaluate
            (fun slot => (nodeProducts [] (loopAxes smallTables [0, 0] [0, 0] [⟨0, 2⟩, ⟨1, 3⟩]) 0
              (MultiIndex.multiIndex n [2, 3]) products).getD slot Scalar.zero)
            (CompiledKernel.fieldValue arrays n) sums) sums := by
  obtain ⟨hwalks, hpositions, hmaps, hsweeps⟩ := node_numbering (α := Float)
  have hposition := (hpositions ⟨[2, 3], 6, 2, #[]⟩ 5 (by decide)).2 (by decide)
  have hmap := hmaps (.identity 2) smallGrid (.identity (rfl : GeometryMap.ofDim 2 = .ok (.identity 2))) rfl
  obtain ⟨-, -, hsweep⟩ := hsweeps smallTables [0, 0] [0, 0] [⟨0, 2⟩, ⟨1, 3⟩] rfl rfl rfl
    (.cons (by decide) (.cons (by decide) .nil))
  exact ⟨(hwalks [2, 3]).1, (hwalks [2, 0]).1, (hwalks []).1, hposition, hmap, by decide,
    fun p arrays products sums => hsweep p arrays [] products sums⟩

end Galerkin
