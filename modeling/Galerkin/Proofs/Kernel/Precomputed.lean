import Galerkin.Proofs.Form.Direct
import Galerkin.Proofs.Kernel.Checked
import Galerkin.Proofs.Kernel.Preparation

/-! # Precomputed fields hold their definitions

Each precomputed field is evaluated over the grid after the fields it refers to, and what it refers to is
not changed afterwards. So in the end all arrays satisfy the definitions at every node at once, and stored
fields that do so have their direct values.

* **`KernelData.gridPoint`** — what a program over the grid reads at a node;
* **`CompiledKernel.evaluateFields_fixed`** — evaluating again changes nothing;
* **`CompiledKernel.exists_evaluateFields`** — every field is evaluated if the grid has nodes;
* **`KernelData.Sampled`** — data with the arrays of builtin and input fields;
* **`FormBuilder.Reachable.precomputed_exact`** — precomputed fields hold their direct values. -/

namespace Galerkin

variable {α : Type}

/-! ## (1) Programs in order -/

namespace CompiledKernel

variable {k : CompiledKernel α} {item : Nat × Program α} {items : List (Nat × Program α)}

/-- The number of components of the field with a number. -/
def width (k : CompiledKernel α) (id : Nat) : Nat := ((k.form.fields[id]?).map (·.storageSize)).getD 0

/-- The number of a field gives its components. -/
theorem width_eq (hform : k.form.Valid) {f : FieldVariable α} (hf : f ∈ k.form.fields) :
    k.width f.id = f.storageSize := by
  rw [width, hform.getElem?_id hf]
  rfl

/-- **Programs of fields that can be evaluated in order:** each is that of a field with components, and
reads fields with lower numbers only. -/
structure InOrder (k : CompiledKernel α) (items : List (Nat × Program α)) : Prop where
  increasing : items.Pairwise (·.1 < ·.1)
  reads : ∀ item ∈ items, ∀ id ∈ item.2.fields, id < item.1
  slots : ∀ item ∈ items, item.2.SlotsListed
  numbers : ∀ item ∈ items, item.1 < k.form.fields.length
  width : ∀ item ∈ items, 0 < k.width item.1

/-- The later programs can be evaluated in order too. -/
theorem InOrder.tail (h : k.InOrder (item :: items)) : k.InOrder items where
  increasing := (List.pairwise_cons.mp h.increasing).2
  reads later hlater := h.reads later (List.mem_cons_of_mem _ hlater)
  slots later hlater := h.slots later (List.mem_cons_of_mem _ hlater)
  numbers later hlater := h.numbers later (List.mem_cons_of_mem _ hlater)
  width later hlater := h.width later (List.mem_cons_of_mem _ hlater)

/-- The first program reads no field of a later one, nor its own. -/
theorem InOrder.not_mem_of_reads (h : k.InOrder (item :: items)) {id : Nat} (hid : id ∈ item.2.fields) :
    id ∉ (item :: items).map (·.1) := by
  have hbefore := h.reads item (List.mem_cons_self ..) id hid
  intro hmem
  obtain ⟨later, hlater, rfl⟩ := List.mem_map.mp hmem
  rcases List.mem_cons.mp hlater with rfl | hlater
  · exact Nat.lt_irrefl _ hbefore
  · exact Nat.lt_asymm hbefore ((List.pairwise_cons.mp h.increasing).1 later hlater)

/-- The field of the first program is none of the later ones. -/
theorem InOrder.head_not_mem (h : k.InOrder (item :: items)) : item.1 ∉ items.map (·.1) := by
  intro hmem
  obtain ⟨later, hlater, heq⟩ := List.mem_map.mp hmem
  exact absurd heq ((List.pairwise_cons.mp h.increasing).1 later hlater).ne'

end CompiledKernel

/-- There are as many arrays after one is set. -/
theorem KernelData.size_fields_setField (data : KernelData α) (id : Nat) (values : GridArray α) :
    (data.setField id values).fields.size = data.fields.size := Array.size_setIfInBounds

variable [Scalar α]

/-! ## (2) Nodes -/

/-- **What a program over the grid reads at a node:** the components of every field, and no basis
function. -/
def KernelData.gridPoint (data : KernelData α) (node : Nat) : PointData α where
  basis _ := Scalar.zero
  field id component := (data.fieldArray id).data.getD
    (node * (data.fieldArray id).components + component) Scalar.zero

namespace CompiledKernel

variable {data data' : KernelData α}

/-- **The array of a program:** at every node its slots, after evaluation there. -/
theorem evaluateOnGrid_eq_ok {p : Program α} (hp : p.SlotsListed) {shape : List Nat} {components : Nat}
    {values : GridArray α} (h : evaluateOnGrid data p shape components = .ok values) :
    values = GridArray.ofNodes shape components ((List.range (nodeCount shape)).map fun n =>
      p.evaluateAt (data.gridPoint n) (Array.replicate components Scalar.zero)) := by
  obtain ⟨arrays, harrays, h⟩ := bind_eq_ok_iff.mp h
  obtain ⟨-, harrays⟩ := require_bind_eq_ok_iff.mp harrays
  obtain rfl := Except.ok.inj harrays
  obtain rfl := Except.ok.inj h
  refine congrArg _ (List.map_congr_left fun n _ => ?_)
  refine hp.evaluate_congr (fun _ _ => rfl) (fun slot hslot => ?_) _
  funext component
  simp [fieldValue, hslot, Program.fieldOf, KernelData.gridPoint]

/-- The array of a program holds its components at every node. -/
theorem holds_evaluateOnGrid {p : Program α} (hp : p.SlotsListed) {shape : List Nat} {components : Nat}
    {values : GridArray α} (h : evaluateOnGrid data p shape components = .ok values) :
    values.Holds (nodeCount shape) components := by
  obtain rfl := evaluateOnGrid_eq_ok hp h
  have hsize : ∀ node ∈ (List.range (nodeCount shape)).map (fun n =>
      p.evaluateAt (data.gridPoint n) (Array.replicate components Scalar.zero)), node.size = components :=
    List.forall_mem_map.mpr fun n _ => (p.size_evaluateAt _ _).trans Array.size_replicate
  refine ⟨(List.length_map _).trans List.length_range, rfl, ?_⟩
  rw [GridArray.size_ofNodes hsize, List.length_map, List.length_range]

/-- A program over the grid has an array if those it reads hold values. -/
theorem exists_evaluateOnGrid {p : Program α} (h : ∀ id ∈ p.fields, (data.fieldArray id).isEmpty = false)
    (shape : List Nat) (components : Nat) :
    ∃ values, evaluateOnGrid data p shape components = .ok values := by
  have hall : ((p.fields.map data.fieldArray).all fun a => !a.isEmpty) = true := by
    rw [List.all_map, List.all_eq_true]
    intro id hid
    rw [Function.comp_apply, h id hid]
    rfl
  refine ⟨_, bind_eq_ok_iff.mpr ⟨_, require_bind_eq_ok_iff.mpr ⟨hall, rfl⟩, rfl⟩⟩

/-! ## (3) One field after the other -/

variable {k : CompiledKernel α} {items : List (Nat × Program α)}

/-- **Fields that are evaluated in order satisfy their definitions in the end:** evaluating one of them
again would give the array it has. -/
theorem evaluateFields_fixed (hitems : k.InOrder items) (hsize : data.fields.size = k.form.fields.length)
    (h : items.foldlM k.evaluateField data = .ok data') : ∀ item ∈ items,
      evaluateOnGrid data' item.2 data.quadrature.shape (k.width item.1) =
        .ok (data'.fieldArray item.1) := by
  induction items generalizing data with
  | nil => exact fun _ h => nomatch h
  | cons item items ih =>
    rw [List.foldlM_cons, bind_eq_ok_iff] at h
    obtain ⟨middle, hmiddle, h⟩ := h
    obtain ⟨values, hvalues, hmiddle⟩ := bind_eq_ok_iff.mp hmiddle
    obtain rfl := Except.ok.inj hmiddle
    have hrest := agreeExcept_evaluateFields h
    have hlater := ih hitems.tail ((data.size_fields_setField item.1 values).trans hsize) h
    refine List.forall_mem_cons.mpr ⟨?_, hlater⟩
    -- What the first field reads is as it was, and so is its array afterwards.
    have hfresh : ∀ id ∈ item.2.fields, data'.fieldArray id = data.fieldArray id := by
      intro id hid
      have hother := hitems.not_mem_of_reads hid
      rw [List.map_cons, List.mem_cons, not_or] at hother
      rw [hrest.arrays id hother.2, KernelData.fieldArray_setField,
        if_neg fun hset => hother.1 hset.1.symm]
    have hlt : item.1 < data.fields.size := hsize ▸ hitems.numbers item (List.mem_cons_self ..)
    rw [evaluateOnGrid_congr hfresh, hrest.arrays item.1 hitems.head_not_mem,
      KernelData.fieldArray_setField, if_pos ⟨rfl, hlt⟩]
    exact hvalues

/-- **Every field is evaluated** if the grid has nodes, and what is read is evaluated before or holds values
from the start. -/
theorem exists_evaluateFields (hitems : k.InOrder items) (hsize : data.fields.size = k.form.fields.length)
    (hnodes : 0 < nodeCount data.quadrature.shape)
    (hfilled : ∀ item ∈ items, ∀ id ∈ item.2.fields,
      id ∈ items.map (·.1) ∨ (data.fieldArray id).isEmpty = false) :
    ∃ data', items.foldlM k.evaluateField data = .ok data' := by
  induction items generalizing data with
  | nil => exact ⟨data, rfl⟩
  | cons item items ih =>
    obtain ⟨hfirst, hfilled⟩ := List.forall_mem_cons.mp hfilled
    have hready : ∀ id ∈ item.2.fields, (data.fieldArray id).isEmpty = false := fun id hid =>
      (hfirst id hid).resolve_left (hitems.not_mem_of_reads hid)
    obtain ⟨values, hvalues⟩ := exists_evaluateOnGrid hready data.quadrature.shape (k.width item.1)
    have hvalid : values.isEmpty = false := (holds_evaluateOnGrid
      (hitems.slots item (List.mem_cons_self ..)) hvalues).not_empty hnodes
        (hitems.width item (List.mem_cons_self ..))
    have hlt : item.1 < data.fields.size := hsize ▸ hitems.numbers item (List.mem_cons_self ..)
    have hlater : ∀ later ∈ items, ∀ id ∈ later.2.fields, id ∈ items.map (·.1) ∨
        ((data.setField item.1 values).fieldArray id).isEmpty = false := by
      intro later hmem id hid
      rw [KernelData.fieldArray_setField]
      by_cases hset : item.1 = id
      · rw [if_pos ⟨hset, hlt⟩]
        exact .inr hvalid
      · rw [if_neg fun h => hset h.1]
        refine (hfilled later hmem id hid).imp_left fun hid => ?_
        exact (List.mem_cons.mp hid).resolve_left fun heq => hset heq.symm
    have hsize' := (data.size_fields_setField item.1 values).trans hsize
    obtain ⟨data', hdata'⟩ := ih hitems.tail hsize' hnodes hlater
    refine ⟨data', ?_⟩
    rw [List.foldlM_cons, bind_eq_ok_iff]
    exact ⟨_, bind_eq_ok_iff.mpr ⟨values, hvalues, rfl⟩, hdata'⟩

/-! ## (4) The programs of a form -/

variable [DecidableEq α] {form : Form α}

/-- A precomputed field that has a program has one with its number. -/
theorem fieldProgram?_eq_ok {f : FieldVariable α} {o : Operand α} (ho : f.definition = .precomputed o)
    {p : Program α} (hp : lowerField form f = .ok p) : fieldProgram? form f = .ok (some (f.id, p)) := by
  rw [fieldProgram?, ho, hp]
  rfl

/-- **The programs of a form are there** if its references match. -/
theorem exists_programs (hform : form.Valid) (hrefs : form.ReferencesMatch) :
    ∃ items, precomputedPrograms form = .ok items := by
  have hsteps : ∀ f ∈ form.fields, ∃ result, fieldProgram? form f = .ok result := by
    intro f hf
    by_cases hprecomputed : ∃ o, f.definition = .precomputed o
    · obtain ⟨o, ho⟩ := hprecomputed
      obtain ⟨p, hp⟩ := (lowerField_reads hform hf).2 o ho hrefs.sizesMatch
      exact ⟨_, fieldProgram?_eq_ok ho hp⟩
    · refine ⟨none, ?_⟩
      unfold fieldProgram?
      split
      · exact absurd ⟨_, ‹_›⟩ hprecomputed
      · rfl
  obtain ⟨results, hresults⟩ := exists_mapM_eq_ok hsteps
  exact ⟨_, by rw [precomputedPrograms_eq, filterMapM_eq, hresults]; rfl⟩

/-- **Every precomputed field is among the programs,** with its own. -/
theorem exists_mem_programs (hprograms : precomputedPrograms form = .ok items) {f : FieldVariable α}
    (hf : f ∈ form.fields) {o : Operand α} (ho : f.definition = .precomputed o) :
    ∃ p, (f.id, p) ∈ items ∧ lowerField form f = .ok p := by
  rw [precomputedPrograms_eq, filterMapM_eq] at hprograms
  obtain ⟨results, hresults, hprograms⟩ := bind_eq_ok_iff.mp hprograms
  obtain rfl := Except.ok.inj hprograms
  obtain ⟨result, hmem, hstep⟩ := exists_step_of_mapM hresults hf
  have hlower : ∃ p, lowerField form f = .ok p ∧ some (f.id, p) = result := by
    rw [fieldProgram?, ho] at hstep
    obtain ⟨p, hp, hstep⟩ := bind_eq_ok_iff.mp hstep
    exact ⟨p, hp, Except.ok.inj hstep⟩
  obtain ⟨p, hp, rfl⟩ := hlower
  exact ⟨p, List.mem_filterMap.mpr ⟨_, hmem, rfl⟩, hp⟩

/-- **The programs of a valid form** can be evaluated in order. -/
theorem inOrder_of_programs (hform : k.form.Valid)
    (hprograms : precomputedPrograms k.form = .ok items) : k.InOrder items := by
  obtain ⟨hincreasing, hall⟩ := filterMapM_fieldProgram? hform.increasing hprograms
  refine ⟨hincreasing, fun item hitem id hid => ?_, fun item hitem => ?_, fun item hitem => ?_,
    fun item hitem => ?_⟩
  all_goals obtain ⟨f, hf, -, hnumber, hp⟩ := hall item hitem
  · obtain ⟨c, g, -, rfl, hlt, -⟩ := ((lowerField_reads hform hf).1 _ hp).1.fields id hid
    exact hnumber ▸ hlt
  · exact ((lowerField_reads hform hf).1 _ hp).1.slots
  · exact hnumber ▸ hform.id_lt hf
  · rw [← hnumber, width_eq hform hf]
    exact FieldVariable.storageSize_pos (hform.shapes f hf)

end CompiledKernel

/-- **Data with the arrays of builtin and input fields,** which hold the components of their field at every
node. Nothing is said of the arrays of precomputed fields. -/
structure KernelData.Sampled (data : KernelData α) (form : Form α) : Prop where
  size : data.fields.size = form.fields.length
  arrays : ∀ f ∈ form.fields, f.isArray = true → (∀ o, f.definition ≠ .precomputed o) →
    (data.fieldArray f.id).Holds (nodeCount data.quadrature.shape) f.storageSize

/-! ## (5) Exact arithmetic -/

variable {K : Type} [Field K] [LinearOrder K] {form : Form K} {data data' : KernelData K}

/-- **The array of a precomputed field** holds the value of the kept entry of its definition, over what is
stored at the node, for every entry. -/
theorem CompiledKernel.get?_evaluateOnGrid (hform : form.Valid) {f : FieldVariable K} (hf : f ∈ form.fields)
    {e : Expr K} (he : f.definition = .precomputed (some e)) {p : Program K}
    (hp : lowerField form f = .ok p) {shape : List Nat} {values : GridArray K}
    (h : evaluateOnGrid data p shape f.storageSize = .ok values) :
    values.Holds (nodeCount shape) f.storageSize ∧
      ∀ n < nodeCount shape, ∀ i < f.shape.rows, ∀ j < f.shape.cols,
        values.get? n (f.backingIndex i j) = some ((form.valuesOf (data.gridPoint n) e).getD
          ((f.upper i j).1 * f.shape.cols + (f.upper i j).2) 0) := by
  have hlisted := ((lowerField_reads hform hf).1 _ hp).1.slots
  refine ⟨holds_evaluateOnGrid hlisted h, fun n hn i hi j hj => ?_⟩
  obtain rfl := evaluateOnGrid_eq_ok hlisted h
  have hsize : ∀ node ∈ (List.range (nodeCount shape)).map (fun n =>
      p.evaluateAt (data.gridPoint n) (Array.replicate f.storageSize Scalar.zero)),
      node.size = f.storageSize :=
    List.forall_mem_map.mpr fun n _ => (p.size_evaluateAt _ _).trans Array.size_replicate
  have hslot := FieldVariable.backingIndex_lt (hform.shapes f hf) hi hj
  rw [GridArray.get?_ofNodes hsize n hslot, List.getElem?_map, List.getElem?_range hn, Option.map_some,
    Option.bind_some, (lowerField_evaluateAt hform hf he hp _ _).2 i hi j hj, Array.getElem?_replicate,
    if_pos hslot, Option.map_some, Scalar.zero_exact, zero_add]

/-- Components that an array holds are the entries of the field at the node. -/
theorem FieldVariable.stored_eq_mirrored {f : FieldVariable K} {node : Nat} {values : List K}
    (h : ∀ i < f.shape.rows, ∀ j < f.shape.cols, (data.fieldArray f.id).get? node (f.backingIndex i j) =
      some (values.getD ((f.upper i j).1 * f.shape.cols + (f.upper i j).2) 0)) :
    f.stored (data.gridPoint node) = f.mirrored values := by
  refine List.map_congr_left fun p hp => ?_
  obtain ⟨hi, hj⟩ := Shape.mem_positions.mp hp
  show (data.fieldArray f.id).data.getD _ Scalar.zero = values.getD _ Scalar.zero
  have hentry := h p.1 hi p.2 hj
  rw [GridArray.get?] at hentry
  rw [Array.getD_eq_getD_getElem?, hentry, Option.getD_some, Scalar.zero_exact]

/-- Fields whose arrays are the same have the same entries stored. -/
theorem FieldVariable.stored_congr {f : FieldVariable K} (h : data'.fieldArray f.id = data.fieldArray f.id)
    (node : Nat) : f.stored (data'.gridPoint node) = f.stored (data.gridPoint node) := by
  refine List.map_congr_left fun p _ => ?_
  show (data'.fieldArray f.id).data.getD _ _ = (data.fieldArray f.id).data.getD _ _
  rw [h]

/-! ## (6) Precomputed fields -/

namespace CompiledKernel

variable {k : CompiledKernel K} {f : FieldVariable K}

/-- Fields that are not precomputed keep their arrays. -/
theorem fieldArray_evaluatePrecomputed (hform : k.form.Valid)
    (hprograms : precomputedPrograms k.form = .ok k.fieldPrograms)
    (h : k.evaluatePrecomputed data = .ok data') (hf : f ∈ k.form.fields)
    (hother : ∀ o, f.definition ≠ .precomputed o) : data'.fieldArray f.id = data.fieldArray f.id := by
  refine (agreeExcept_evaluatePrecomputed h).arrays f.id fun hmem => ?_
  obtain ⟨item, hitem, hid⟩ := List.mem_map.mp hmem
  obtain ⟨g, hg, ⟨o, ho⟩, hnumber, -⟩ := (filterMapM_fieldProgram? hform.increasing hprograms).2 item hitem
  rw [hform.eq_of_id hg hf (hnumber.trans hid)] at ho
  exact hother o ho

/-- **Precomputed fields satisfy their definitions** over what is stored at the same node. -/
theorem get?_evaluatePrecomputed (hform : k.form.Valid)
    (hprograms : precomputedPrograms k.form = .ok k.fieldPrograms)
    (hsize : data.fields.size = k.form.fields.length) (h : k.evaluatePrecomputed data = .ok data')
    (hf : f ∈ k.form.fields) {e : Expr K} (he : f.definition = .precomputed (some e)) :
    (data'.fieldArray f.id).Holds (nodeCount data.quadrature.shape) f.storageSize ∧
      ∀ n < nodeCount data.quadrature.shape, ∀ i < f.shape.rows, ∀ j < f.shape.cols,
        (data'.fieldArray f.id).get? n (f.backingIndex i j) =
          some ((k.form.valuesOf (data'.gridPoint n) e).getD
            ((f.upper i j).1 * f.shape.cols + (f.upper i j).2) 0) := by
  obtain ⟨p, hmem, hp⟩ := exists_mem_programs hprograms hf he
  rw [evaluatePrecomputed_eq] at h
  have hfixed := evaluateFields_fixed (inOrder_of_programs hform hprograms) hsize h (f.id, p) hmem
  rw [width_eq hform hf] at hfixed
  exact get?_evaluateOnGrid hform hf he hp hfixed

/-- **Array fields have direct values** at every node after evaluation. -/
theorem stored_evaluatePrecomputed (hform : k.form.Valid)
    (hprograms : precomputedPrograms k.form = .ok k.fieldPrograms)
    (hsize : data.fields.size = k.form.fields.length) (h : k.evaluatePrecomputed data = .ok data')
    {n : Nat} (hn : n < nodeCount data.quadrature.shape) (hf : f ∈ k.form.fields)
    (harray : f.isArray = true) :
    f.stored (data'.gridPoint n) = k.form.directValues (data.gridPoint n) f.name := by
  refine hform.stored_eq_direct (fun g hg _ hother => ?_) (fun g hg e he => ?_) hf harray
  · exact FieldVariable.stored_congr (fieldArray_evaluatePrecomputed hform hprograms h hg hother) n
  · exact FieldVariable.stored_eq_mirrored
      ((get?_evaluatePrecomputed hform hprograms hsize h hg he).2 n hn)

/-- **Evaluation succeeds** if the grid has nodes and builtin and input fields are sampled. -/
theorem exists_evaluatePrecomputed (hform : k.form.Valid)
    (hprograms : precomputedPrograms k.form = .ok k.fieldPrograms) (hdata : data.Sampled k.form)
    (hnodes : 0 < nodeCount data.quadrature.shape) : ∃ data', k.evaluatePrecomputed data = .ok data' := by
  simp only [evaluatePrecomputed_eq]
  refine exists_evaluateFields (inOrder_of_programs hform hprograms) hdata.size hnodes ?_
  intro item hitem id hid
  obtain ⟨g, hg, -, -, hp⟩ := (filterMapM_fieldProgram? hform.increasing hprograms).2 item hitem
  obtain ⟨c, f, hf, rfl, -, harray, hc⟩ := ((lowerField_reads hform hg).1 _ hp).1.fields id hid
  by_cases hprecomputed : ∃ o, f.definition = .precomputed o
  · obtain ⟨o, ho⟩ := hprecomputed
    obtain ⟨p, hmem, -⟩ := exists_mem_programs hprograms hf ho
    exact .inl (List.mem_map_of_mem hmem)
  · have hholds := hdata.arrays f hf harray fun o ho => hprecomputed ⟨o, ho⟩
    exact .inr (hholds.not_empty hnodes (Nat.zero_lt_of_lt hc))

end CompiledKernel

/-- **Precomputed fields hold their direct values.** Take a form that a builder returns and whose references
match. Its precomputed fields have programs, with one output for each component of their field. Take a
kernel with these programs, and data with the components of all builtin and input fields at every node of
a grid. The precomputed fields are evaluated if there is a node, and other arrays are not touched. Then the
component where a field keeps entry `(i, j)` is, at every node, the direct value of that entry of its
definition, or, if the field is symmetric, of the one of the entries `(i, j)` and `(j, i)` that is on or
above the diagonal. So if the definition of a symmetric field is symmetric at a node, it is entry `(i, j)`
for all `i` and `j`. -/
theorem FormBuilder.Reachable.precomputed_exact {b : FormBuilder K} (hb : b.Reachable)
    (hfinal : b.finalize = .ok form) (hrefs : form.ReferencesMatch) :
    ∃ programs, CompiledKernel.precomputedPrograms form = .ok programs ∧
      (∀ f ∈ form.fields, ∀ o, f.definition = .precomputed o → ∃ p, (f.id, p) ∈ programs ∧
        p.outputs.map Prod.fst = List.range f.storageSize) ∧
      ∀ k : CompiledKernel K, k.form = form → k.fieldPrograms = programs →
        ∀ data : KernelData K, data.Sampled form →
          (0 < nodeCount data.quadrature.shape → ∃ data', k.evaluatePrecomputed data = .ok data') ∧
          ∀ data', k.evaluatePrecomputed data = .ok data' →
            data.AgreeExcept (fun id => ∃ f ∈ form.fields, f.id = id ∧
              ∃ o, f.definition = .precomputed o) data' ∧
            ∀ f ∈ form.fields, ∀ e, f.definition = .precomputed (some e) →
              (data'.fieldArray f.id).Holds (nodeCount data.quadrature.shape) f.storageSize ∧
              ∀ n < nodeCount data.quadrature.shape, ∀ i < f.shape.rows, ∀ j < f.shape.cols,
                (data'.fieldArray f.id).get? n (f.backingIndex i j) =
                  some (if f.symmetric
                    then form.directEntry (data.gridPoint n) e (min i j) (max i j)
                    else form.directEntry (data.gridPoint n) e i j) ∧
                ((∀ r < f.shape.rows, ∀ c < f.shape.cols,
                    form.directEntry (data.gridPoint n) e r c = form.directEntry (data.gridPoint n) e c r) →
                  (data'.fieldArray f.id).get? n (f.backingIndex i j) =
                    some (form.directEntry (data.gridPoint n) e i j)) := by
  have hform := hb.valid.form hfinal
  obtain ⟨programs, hprograms⟩ := CompiledKernel.exists_programs hform hrefs
  refine ⟨programs, hprograms, fun f hf o ho => ?_, ?_⟩
  · obtain ⟨p, hmem, hp⟩ := CompiledKernel.exists_mem_programs hprograms hf ho
    exact ⟨p, hmem, lowerField_outputs hform hf ho hp⟩
  rintro k rfl rfl data hdata
  refine ⟨CompiledKernel.exists_evaluatePrecomputed hform hprograms hdata, fun data' h => ⟨?_, ?_⟩⟩
  · refine (CompiledKernel.agreeExcept_evaluatePrecomputed h).mono fun id hid => ?_
    obtain ⟨item, hitem, rfl⟩ := List.mem_map.mp hid
    obtain ⟨f, hf, hdefinition, hnumber, -⟩ :=
      (CompiledKernel.filterMapM_fieldProgram? hform.increasing hprograms).2 item hitem
    exact ⟨f, hf, hnumber, hdefinition⟩
  · intro f hf e he
    obtain ⟨hholds, hentries⟩ := CompiledKernel.get?_evaluatePrecomputed hform hprograms hdata.size h hf he
    refine ⟨hholds, fun n hn i hi j hj => ?_⟩
    have hdirect := hform.valuesOf_eq_direct
      (fun g hg => CompiledKernel.stored_evaluatePrecomputed hform hprograms hdata.size h hn hg) hf he
    obtain ⟨x, hx, -, hshape, -⟩ := hform.precomputed f hf _ he
    obtain rfl := Option.some.inj hx
    have hentry : (data'.fieldArray f.id).get? n (f.backingIndex i j) = some (if f.symmetric
        then k.form.directEntry (data.gridPoint n) e (min i j) (max i j)
        else k.form.directEntry (data.gridPoint n) e i j) := by
      rw [hentries n hn i hi j hj, hdirect, Form.directEntry, Form.directEntry, hshape, FieldVariable.upper,
        Scalar.zero_exact]
      cases f.symmetric <;> rfl
    refine ⟨hentry, fun hsymmetric => hentry.trans (congrArg some ?_)⟩
    split
    · rcases Nat.le_total i j with hle | hle
      · rw [Nat.min_eq_left hle, Nat.max_eq_right hle]
      · rw [Nat.min_eq_right hle, Nat.max_eq_left hle]
        exact (hsymmetric i hi j hj).symm
    · rfl

/-- The weight on the diagonal of a matrix, with different entries above and below it. -/
def weightMatrix : Expr ℚ :=
  .compose (.matrix 2 2) [.field "weight" .scalar false, .const 2, .const 3, .field "weight" .scalar false]

/-- A form with a symmetric field that is defined by this matrix, and another that is twice the first. -/
def chainForm : Form ℚ where
  name := "chain"
  dim := 1
  arity := .linear
  components := 1
  symmetric := false
  fields := [⟨0, "weight", .scalar, false, .builtin .weight⟩,
    ⟨1, "a", .matrix 2 2, true, .precomputed (some weightMatrix)⟩,
    ⟨2, "b", .matrix 2 2, true, .precomputed
      (some (.binary .add (.field "a" (.matrix 2 2) true) (.field "a" (.matrix 2 2) true)))⟩]
  accumulations := [⟨0, some (.entry (.field "b" (.matrix 2 2) true) 0 1)⟩]
  requirements := { jacobian := true, weight := true }

/-- Data on two nodes, with weights `5` and `7`. -/
def chainData : KernelData ℚ where
  trial := []
  test := []
  pointsPerElement := 2
  quadrature := ⟨[⟨2, #[1, 2], #[5, 7]⟩]⟩
  fields := #[⟨[2], 2, 1, #[5, 7]⟩, .empty, .empty]
  points := .empty

/-- A builder makes this form. -/
theorem exists_builder_chainForm : ∃ b : FormBuilder ℚ, b.Reachable ∧ b.finalize = .ok chainForm := by
  have hweight : (Expr.field "weight" .scalar false : Expr ℚ).Built :=
    .field (e := .field "weight" .scalar false) (rfl : Expr.ofField "weight" .scalar false = _)
  have ha : (Expr.field "a" (.matrix 2 2) true : Expr ℚ).Built :=
    .field (e := .field "a" (.matrix 2 2) true) (rfl : Expr.ofField "a" (.matrix 2 2) true = _)
  have hb : (Expr.field "b" (.matrix 2 2) true : Expr ℚ).Built :=
    .field (e := .field "b" (.matrix 2 2) true) (rfl : Expr.ofField "b" (.matrix 2 2) true = _)
  have hmatrix : weightMatrix.Built := by
    have hentries : Expr.ofMatrix 2 2 [some (.field "weight" .scalar false), some (.const 2),
        some (.const 3), some (.field "weight" .scalar false)] = .ok weightMatrix := rfl
    refine .matrix (fun o ho e he => ?_) hentries
    simp only [List.mem_cons, List.not_mem_nil, or_false] at ho
    rcases ho with rfl | rfl | rfl | rfl <;> obtain rfl := Option.some.inj he
    · exact hweight
    · exact .const _
    · exact .const _
    · exact hweight
  have htwice : (Expr.binary .add (.field "a" (.matrix 2 2) true) (.field "a" (.matrix 2 2) true) :
      Expr ℚ).Built := .arith ha ha (rfl : Operand.arith .add _ _ = _)
  have hentry : (Expr.entry (.field "b" (.matrix 2 2) true) 0 1 : Expr ℚ).Built :=
    .entry hb (rfl : Operand.entry _ 0 1 = _)
  exact ⟨_, .call (c := .addToSlot 0 (some _)) (.call (c := .precompute "b" (some _) true)
    (.call (c := .precompute "a" (some _) true) (.call (c := .quadratureWeight)
      (.make (rfl : FormBuilder.make "chain" 1 .linear 1 false = _)) fun _ h => nomatch h)
      fun e he => Option.some.inj he ▸ hmatrix) fun e he => Option.some.inj he ▸ htwice)
    fun e he => Option.some.inj he ▸ hentry, rfl⟩

/-- Both fields are evaluated. At the second node the first keeps the entry above the diagonal for the one
below it, and the second is symmetric, so it is twice that in both places. -/
theorem precomputed_exact_chainForm : (∃ b : FormBuilder ℚ, b.Reachable ∧ b.finalize = .ok chainForm) ∧
    chainForm.ReferencesMatch ∧ chainData.Sampled chainForm ∧
      ∃ (k : CompiledKernel ℚ) (data' : KernelData ℚ), k.form = chainForm ∧
        k.evaluatePrecomputed chainData = .ok data' ∧
        (data'.fieldArray 1).get? 1 1 = some 2 ∧ (data'.fieldArray 2).get? 1 1 = some 4 := by
  obtain ⟨b, hb, hfinal⟩ := exists_builder_chainForm
  have hrefs : chainForm.ReferencesMatch := Form.referencesMatch_of_all rfl rfl
  have hdata : chainData.Sampled chainForm := by
    refine ⟨rfl, fun f hf _ hother => ?_⟩
    simp only [chainForm, List.mem_cons, List.not_mem_nil, or_false] at hf
    rcases hf with rfl | rfl | rfl
    · exact ⟨rfl, rfl, rfl⟩
    · exact absurd rfl (hother _)
    · exact absurd rfl (hother _)
  obtain ⟨programs, -, -, hexact⟩ := FormBuilder.Reachable.precomputed_exact hb hfinal hrefs
  obtain ⟨hevaluated, hvalues⟩ := hexact ⟨chainForm, default, programs⟩ rfl rfl chainData hdata
  obtain ⟨data', hdata'⟩ := hevaluated (by decide)
  have hfields := (hvalues data' hdata').2
  have hfirst := ((hfields _ (List.mem_of_getElem? (i := 1) rfl) _ rfl).2 1 (by decide)
    1 (by decide) 0 (by decide)).1
  have hsecond := ((hfields _ (List.mem_of_getElem? (i := 2) rfl) _ rfl).2 1 (by decide)
    1 (by decide) 0 (by decide)).2 (by decide +kernel)
  refine ⟨⟨b, hb, hfinal⟩, hrefs, hdata, _, data', rfl, hdata', hfirst.trans ?_, hsecond.trans ?_⟩
  · decide +kernel
  · decide +kernel

end Galerkin
