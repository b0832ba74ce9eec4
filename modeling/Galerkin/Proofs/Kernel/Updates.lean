import Galerkin.Assembly.FormAssembler
import Galerkin.Proofs.Assembly.Batches
import Galerkin.Proofs.Kernel.Entries
import Galerkin.Proofs.Kernel.Preparation
import Mathlib.Logic.Function.Basic

/-! # Updates of input fields

New values of an input field are sampled, and then the precomputed fields are evaluated again on arrays
that are partly stale. The data are the same as those of a form that had the function from the start.

* **`CompiledKernel.updateInput_eq_prepare`** — an update is a preparation with the new function;
* **`FormAssembler.run_updateInput`**, **`FormAssembler.eq_of_updateInput_error`** — an assembler changes a copy
  of its data, so a call that fails changes nothing;
* **`InputCall`**, **`InputHistory`** — calls on an assembler, with the functions that were set last;
* **`FormAssembler.Current`** — data that a form with given functions has;
* **`FormBuilder.Reachable.updates_current`** — after any calls. -/

namespace Galerkin

variable {α : Type} [Scalar α]

namespace CompiledKernel

/-! ## (1) Other functions -/

variable (k : CompiledKernel α) (given : InputFunctions α)

omit [Scalar α] in
/-- Functions are sampled or not, whatever the functions. -/
theorem hasInput_withInputs : (k.withInputs given).hasInput = k.hasInput := by
  unfold hasInput withInputs Form.withInputs
  rw [List.any_map]
  congr 1
  funext f
  obtain ⟨id, name, shape, symmetric, definition⟩ := f
  cases definition <;> rfl

/-- Precomputed fields are evaluated by the same programs. -/
theorem evaluatePrecomputed_withInputs (data : KernelData α) :
    (k.withInputs given).evaluatePrecomputed data = k.evaluatePrecomputed data := by
  have hfield : (k.withInputs given).evaluateField = k.evaluateField := by
    funext data item
    -- A field keeps its components, whatever its function.
    have hsize : ((k.form.withInputs given).fields[item.1]?.map (·.storageSize)) =
        k.form.fields[item.1]?.map (·.storageSize) := by
      rw [Form.withInputs, List.getElem?_map, Option.map_map]
      rfl
    rw [evaluateField_eq, evaluateField_eq, ← hsize]
    rfl
  rw [evaluatePrecomputed_eq, evaluatePrecomputed_eq, hfield]
  rfl

/-- The fields of a form with given functions. -/
theorem fillFields_withInputs (base : KernelData α) (jacobian : JacobianData α) :
    (k.withInputs given).fillFields base jacobian =
      (k.form.fields.mapM fun f =>
        k.initialField base.quadrature jacobian base.points (f.withInput given)) >>= fun fields =>
          k.evaluatePrecomputed { base with fields := fields.toArray } := by
  unfold fillFields
  simp only [evaluatePrecomputed_withInputs]
  show List.mapM _ (k.form.fields.map (·.withInput given)) >>= _ = _
  rw [List.mapM_map]
  rfl

/-! ## (2) One update -/

variable {k given} {base data data' : KernelData α} {jacobian : JacobianData α} {f : FieldVariable α}
  {o : Option (InputFunction α)}

/-- **One other function changes one array,** and then the precomputed fields are evaluated again. -/
theorem fillFields_update (hk : k.Ordered) (h : (k.withInputs given).fillFields base jacobian = .ok data)
    (hf : f ∈ k.form.fields) (ho : f.definition = .input o) (g : InputFunction α) :
    (k.withInputs (Function.update given f.name (some g))).fillFields base jacobian =
      sampleInput base.quadrature.shape base.points g >>= fun values =>
        k.evaluatePrecomputed (data.setField f.id values) := by
  rw [fillFields_withInputs] at h ⊢
  obtain ⟨fields, hfields, hdata⟩ := bind_eq_ok_iff.mp h
  -- All other fields keep their functions.
  have hothers : ∀ m f', k.form.fields[m]? = some f' → m ≠ f.id →
      k.initialField base.quadrature jacobian base.points
          (f'.withInput (Function.update given f.name (some g))) =
        k.initialField base.quadrature jacobian base.points (f'.withInput given) := by
    intro m f' hf' hm
    have hname : f'.name ≠ f.name := by
      intro hname
      obtain rfl := hk.form.eq_of_name (List.mem_of_getElem? hf') hf hname
      exact hm (hk.form.numbers hf').symm
    unfold FieldVariable.withInput
    rw [Function.update_of_ne hname]
  have hsampled : k.initialField base.quadrature jacobian base.points
      (f.withInput (Function.update given f.name (some g))) =
        sampleInput base.quadrature.shape base.points g := by
    unfold FieldVariable.withInput
    rw [Function.update_self, ho]
    rfl
  rw [mapM_set hfields (hk.form.getElem?_id hf) hothers, hsampled]
  cases sampleInput base.quadrature.shape base.points g with
  | error e => rfl
  | ok values =>
    -- The array is set, and whatever else differs is evaluated again.
    have hset : { base with fields := (fields.set f.id values).toArray } =
        KernelData.setField { base with fields := fields.toArray } f.id values := by
      rw [KernelData.setField, List.setIfInBounds_toArray]
    have hagree := (agreeExcept_evaluatePrecomputed hdata).setField f.id values
    show k.evaluatePrecomputed { base with fields := (fields.set f.id values).toArray } = _
    rw [hset]
    exact (evaluatePrecomputed_congr hk (hagree.mono fun _ hid => hid.1)).symm

/-- An update of an input field samples the function and evaluates the precomputed fields again. -/
theorem finished_updateInput (hk : k.Ordered) (hf : f ∈ k.form.fields) (ho : f.definition = .input o)
    (g : InputFunction α) (hpoints : data.points.isEmpty = false) :
    (k.updateInput f.name (some g)).finished data =
      sampleInput data.quadrature.shape data.points g >>= fun values =>
        k.evaluatePrecomputed (data.setField f.id values) := by
  unfold updateInput
  rw [hk.form.find?_eq_some hf]
  simp only [ho]
  rw [InPlace.finished_get_bind, InPlace.finished_lift_bind, hpoints]
  exact InPlace.finished_lift_bind _ _ data

/-- **An update that succeeds** is that of an input field by a function. -/
theorem exists_of_updateInput {name : String} {function : Option (InputFunction α)}
    (h : (k.updateInput name function).finished data = .ok data') :
    (∃ f ∈ k.form.fields, f.name = name ∧ ∃ o, f.definition = .input o) ∧ (∃ g, function = some g) ∧
      data.points.isEmpty = false := by
  unfold updateInput at h
  split at h
  · cases h
  rename_i f hfind
  split at h
  · split at h
    · cases h
    rw [InPlace.finished_get_bind, InPlace.finished_lift_bind] at h
    obtain ⟨hpoints, -⟩ := require_bind_eq_ok_iff.mp h
    obtain ⟨hmem, hname⟩ := mem_of_find?_key hfind
    exact ⟨⟨f, hmem, hname, _, ‹_›⟩, ⟨_, rfl⟩, (Bool.not_eq_true' _).mp hpoints⟩
  · cases h

variable [Circular α] [ScalarText α] {bases : KernelBases α} {geometry : GeometryMap α}

/-- What is prepared before the fields does not depend on functions. -/
theorem foundation_withInputs (k : CompiledKernel α) (given : InputFunctions α) :
    (k.withInputs given).foundation bases geometry = k.foundation bases geometry := by
  unfold foundation physicalPoints
  rw [hasInput_withInputs]
  rfl

/-- Forms with given functions are prepared from the foundation of the form. -/
theorem exists_of_prepare (h : (k.withInputs given).prepare bases geometry = .ok data) :
    ∃ base jacobian, k.foundation bases geometry = .ok (base, jacobian) ∧
      (k.withInputs given).fillFields base jacobian = .ok data ∧
      data.quadrature = base.quadrature ∧ data.points = base.points := by
  rw [prepare_eq, foundation_withInputs] at h
  obtain ⟨⟨base, jacobian⟩, hbase, hfill⟩ := bind_eq_ok_iff.mp h
  have hrest := rest_of_fillFields hfill
  exact ⟨base, jacobian, hbase, hfill, by rw [hrest], by rw [hrest]⟩

/-- **An update is a preparation with the new function,** failures included. -/
theorem updateInput_eq_prepare (hk : k.Ordered)
    (h : (k.withInputs given).prepare bases geometry = .ok data) (hpoints : data.points.isEmpty = false)
    (hf : f ∈ k.form.fields) (ho : f.definition = .input o) (g : InputFunction α) :
    (k.updateInput f.name (some g)).finished data =
      (k.withInputs (Function.update given f.name (some g))).prepare bases geometry := by
  obtain ⟨base, jacobian, hbase, hfill, hquadrature, hsame⟩ := exists_of_prepare h
  rw [prepare_eq, foundation_withInputs, hbase, finished_updateInput hk hf ho g hpoints, hquadrature, hsame]
  exact (fillFields_update hk hfill hf ho g).symm

end CompiledKernel

/-! ## (3) Histories -/

/-- A call that gives a field new values. -/
structure InputCall (α : Type) where
  name : String
  function : Option (InputFunction α)

/-- Whether a call names an input field of a form and has a function. -/
def InputCall.Sets (c : InputCall α) (form : Form α) : Prop :=
  (∃ f ∈ form.fields, f.name = c.name ∧ ∃ o, f.definition = .input o) ∧ ∃ g, c.function = some g

/-- **An assembler with the functions that were set last,** by field. -/
structure InputHistory (α : Type) [Scalar α] where
  assembler : FormAssembler α
  given : InputFunctions α

/-- One call more. The function is set if it succeeds; the assembler is what the call leaves behind. -/
def InputHistory.call (s : InputHistory α) (c : InputCall α) : InputHistory α :=
  match (FormAssembler.updateInput c.name c.function).run.run s.assembler with
  | (.ok (), f) => ⟨f, Function.update s.given c.name c.function⟩
  | (.error _, f) => ⟨f, s.given⟩

/-- **Some calls on an assembler,** one after the other. -/
def FormAssembler.afterCalls (f : FormAssembler α) (calls : List (InputCall α)) : InputHistory α :=
  calls.foldl InputHistory.call ⟨f, fun _ => none⟩

namespace FormAssembler

variable {f f' : FormAssembler α} {name : String} {function : Option (InputFunction α)}

/-- **What a call does:** the copy takes the place of the data at the end, or nothing does. -/
theorem run_updateInput (name : String) (function : Option (InputFunction α)) (f : FormAssembler α) :
    (∀ data, (f.kernel.updateInput name function).finished f.data = .ok data →
      (updateInput name function).run.run f = (.ok (), { f with data })) ∧
    ∀ e, (f.kernel.updateInput name function).finished f.data = .error e →
      (updateInput name function).run.run f = (.error e, f) := by
  have hcall : (updateInput name function).run.run f =
      ((liftM ((f.kernel.updateInput name function).run.run f.data).1 : InPlace (FormAssembler α) Unit) >>=
        fun _ => MonadStateOf.set
          { f with data := ((f.kernel.updateInput name function).run.run f.data).2 }).run.run f := rfl
  unfold InPlace.finished
  rw [hcall]
  rcases (f.kernel.updateInput name function).run.run f.data with ⟨cause | done, copy⟩
  · refine ⟨fun data h => ?_, fun e h => ?_⟩
    · cases h
    · cases h
      rfl
  · refine ⟨fun data h => ?_, fun e h => ?_⟩
    · cases h
      rfl
    · cases h

/-- **A call that fails changes nothing,** whatever the assembler, and although the kernel changes data in
place. -/
theorem eq_of_updateInput_error {e : Error} (h : (updateInput name function).run.run f = (.error e, f')) :
    f' = f := by
  obtain ⟨hok, herror⟩ := run_updateInput name function f
  cases hupdate : (f.kernel.updateInput name function).finished f.data with
  | ok data => cases (hok data hupdate).symm.trans h
  | error cause => exact (Prod.mk.inj ((herror cause hupdate).symm.trans h)).2.symm

/-- The assembler after a call that succeeds has the data of the kernel's update. -/
theorem finished_updateInput (name : String) (function : Option (InputFunction α)) (f : FormAssembler α) :
    (updateInput name function).finished f =
      (f.kernel.updateInput name function).finished f.data >>= fun data => .ok { f with data } := by
  obtain ⟨hok, herror⟩ := run_updateInput name function f
  rw [InPlace.finished]
  cases hupdate : (f.kernel.updateInput name function).finished f.data with
  | ok data => rw [hok data hupdate]; rfl
  | error cause => rw [herror cause hupdate]; rfl

end FormAssembler

variable [Circular α] [ScalarText α] {k : CompiledKernel α} {bases : KernelBases α}
  {geometry : GeometryMap α} {given : InputFunctions α}

namespace FormAssembler

/-- **An assembler whose data are current:** they are prepared from the form with given functions. -/
structure Current (f : FormAssembler α) (k : CompiledKernel α) (bases : KernelBases α)
    (geometry : GeometryMap α) (given : InputFunctions α) : Prop where
  kernel : f.kernel = k
  data : (k.withInputs given).prepare bases geometry = .ok f.data
  bases : f.bases = bases

/-- An assembler that is made is current, with the functions of the form. -/
theorem current_of_make {f : FormAssembler α} (h : (make (some k) bases geometry).result = .ok f) :
    f.Current k bases geometry fun _ => none := by
  obtain ⟨⟨⟩, -, h⟩ := Outcome.bind_eq_ok_iff.mp h
  obtain ⟨data, hdata, h⟩ := Outcome.bind_eq_ok_iff.mp h
  obtain ⟨⟨⟩, -, h⟩ := Outcome.bind_eq_ok_iff.mp h
  obtain rfl := Except.ok.inj h
  have hown : ∀ f : FieldVariable α, f.withInput (fun _ => none) = f := by
    intro f
    obtain ⟨id, name, shape, symmetric, definition⟩ := f
    cases definition <;> rfl
  refine ⟨rfl, ?_, rfl⟩
  rw [CompiledKernel.withInputs, Form.withInputs, List.map_congr_left fun f _ => hown f, List.map_id']
  exact hdata

variable {f f' : FormAssembler α} {c : InputCall α}

/-- **A call on a current assembler** fails if it sets no input field. Otherwise it prepares the form with
its function in place of the former one, and fails if that does. -/
theorem Current.updateInput (hk : k.Ordered) (hf : f.Current k bases geometry given) :
    (¬c.Sets k.form → ∃ e, (updateInput c.name c.function).finished f = .error e) ∧
      (c.Sets k.form → geometry.Made → (·.data) <$> (updateInput c.name c.function).finished f =
        (k.withInputs (Function.update given c.name c.function)).prepare bases geometry) ∧
      ∀ f', (updateInput c.name c.function).finished f = .ok f' →
        f'.Current k bases geometry (Function.update given c.name c.function) := by
  obtain ⟨rfl, hdata, rfl⟩ := hf
  obtain ⟨name, function⟩ := c
  refine ⟨fun hsets => ?_, ?_, fun f' h => ?_⟩
  · cases h : (updateInput name function).finished f with
    | error e => exact ⟨e, rfl⟩
    | ok f' =>
      rw [finished_updateInput] at h
      obtain ⟨data, hupdate, -⟩ := bind_eq_ok_iff.mp h
      obtain ⟨hfield, hfunction, -⟩ := CompiledKernel.exists_of_updateInput hupdate
      exact absurd ⟨hfield, hfunction⟩ hsets
  · -- The form has an input field, so there are points to sample at.
    rintro ⟨⟨field, hfield, rfl, o, ho⟩, g, rfl⟩ hgeometry
    have hpoints : f.data.points.isEmpty = false := by
      obtain ⟨base, jacobian, hbase, -, -, hpoints⟩ := CompiledKernel.exists_of_prepare hdata
      rw [hpoints]
      refine CompiledKernel.points_not_empty (List.any_eq_true.mpr ⟨field, hfield, ?_⟩) hgeometry hbase
      rw [ho]
    show (·.data) <$> (updateInput field.name (some g)).finished f = _
    rw [← CompiledKernel.updateInput_eq_prepare hk hdata hpoints hfield ho g, finished_updateInput]
    cases (f.kernel.updateInput field.name (some g)).finished f.data <;> rfl
  · rw [finished_updateInput] at h
    obtain ⟨data, hupdate, h⟩ := bind_eq_ok_iff.mp h
    obtain rfl := Except.ok.inj h
    obtain ⟨⟨field, hfield, rfl, o, ho⟩, ⟨g, rfl⟩, hpoints⟩ :=
      CompiledKernel.exists_of_updateInput hupdate
    rw [CompiledKernel.updateInput_eq_prepare hk hdata hpoints hfield ho g] at hupdate
    exact ⟨rfl, hupdate, rfl⟩

/-- **One call keeps an assembler current.** -/
theorem Current.call (hk : k.Ordered) {s : InputHistory α}
    (hs : s.assembler.Current k bases geometry s.given) (c : InputCall α) :
    (s.call c).assembler.Current k bases geometry (s.call c).given := by
  have hafter := (hs.updateInput (c := c) hk).2.2
  unfold InputHistory.call
  rw [InPlace.finished] at hafter
  rcases hrun : (FormAssembler.updateInput c.name c.function).run.run s.assembler with ⟨e | ⟨⟨⟩⟩, f⟩
  · obtain rfl := eq_of_updateInput_error hrun
    exact hs
  · rw [hrun] at hafter
    exact hafter f rfl

/-- **Calls keep an assembler current.** -/
theorem Current.afterCalls (hk : k.Ordered) {f : FormAssembler α}
    (hf : f.Current k bases geometry fun _ => none) (calls : List (InputCall α)) :
    (f.afterCalls calls).assembler.Current k bases geometry (f.afterCalls calls).given := by
  unfold FormAssembler.afterCalls
  have hstart : (⟨f, fun _ => none⟩ : InputHistory α).assembler.Current k bases geometry
      (⟨f, fun _ => none⟩ : InputHistory α).given := hf
  generalize (⟨f, fun _ => none⟩ : InputHistory α) = s at hstart
  induction calls generalizing s with
  | nil => exact hstart
  | cons c calls ih => exact ih _ (hstart.call hk c)

/-- **Arrays of builtin fields** are the same for all functions. -/
theorem Current.builtin (hk : k.Ordered) {given' : InputFunctions α}
    (hf : f.Current k bases geometry given) (hf' : f'.Current k bases geometry given')
    {field : FieldVariable α} (hfield : field ∈ k.form.fields) {which : BuiltinField}
    (hbuiltin : field.definition = .builtin which) :
    f'.data.fieldArray field.id = f.data.fieldArray field.id := by
  obtain ⟨id, name, shape, symmetric, definition⟩ := field
  obtain rfl : definition = .builtin which := hbuiltin
  -- Both are sampled from the same grid and Jacobian.
  have hsampled : ∀ {given : InputFunctions α} {f : FormAssembler α},
      f.Current k bases geometry given → ∃ base jacobian, k.foundation bases geometry = .ok (base, jacobian) ∧
        k.initialField base.quadrature jacobian base.points ⟨id, name, shape, symmetric, .builtin which⟩ =
          .ok (f.data.fieldArray id) := by
    intro given f hf
    obtain ⟨base, jacobian, hbase, hfill, -⟩ := CompiledKernel.exists_of_prepare hf.data
    rw [CompiledKernel.fillFields_withInputs] at hfill
    obtain ⟨fields, hfields, hfill⟩ := bind_eq_ok_iff.mp hfill
    exact ⟨base, jacobian, hbase,
      CompiledKernel.sampled_of_evaluatePrecomputed hk hfields hfill hfield fun _ h => nomatch h⟩
  obtain ⟨base, jacobian, hbase, hf⟩ := hsampled hf
  obtain ⟨base', jacobian', hbase', hf'⟩ := hsampled hf'
  obtain ⟨rfl, rfl⟩ := Prod.mk.inj (Except.ok.inj (hbase.symm.trans hbase'))
  exact Except.ok.inj (hf'.symm.trans hf)

end FormAssembler

/-! ## (4) Forms of a builder -/

/-- **Updates equal preparation anew, and are atomic.** Take a form that a builder returns, its kernel, and
an assembler that is made with it, and any calls on that assembler. Then its data, with the arrays of all
fields, are those of the form in which every input field has the function that was set last; kernel, bases
and the arrays of builtin fields are as they were. One call more fails if it sets no input field. Otherwise
it gives what preparation with its function gives, failures included. A call that fails leaves the assembler
behind as it was before. There is no assembler for a form whose transposed inverse has too few components,
see `CompiledKernel.geometry_of_prepare`. -/
theorem FormBuilder.Reachable.updates_current [DecidableEq α] {b : FormBuilder α} (hb : b.Reachable)
    {form : Form α} (h : b.finalize = .ok form) {dim : Nat} (hk : CompiledKernel.emit dim form = .ok k)
    {f : FormAssembler α} (hmake : (FormAssembler.make (some k) bases geometry).result = .ok f)
    (calls : List (InputCall α)) :
    (∃ k', CompiledKernel.emit dim (form.withInputs (f.afterCalls calls).given) = .ok k' ∧
      k'.prepare bases geometry = .ok (f.afterCalls calls).assembler.data) ∧
    ((f.afterCalls calls).assembler.kernel = k ∧ (f.afterCalls calls).assembler.bases = bases ∧
      ∀ field ∈ form.fields, ∀ which, field.definition = .builtin which →
        (f.afterCalls calls).assembler.data.fieldArray field.id = f.data.fieldArray field.id) ∧
    ∀ c : InputCall α,
      (¬c.Sets form → ∃ e, (FormAssembler.updateInput c.name c.function).finished
        (f.afterCalls calls).assembler = .error e) ∧
      (c.Sets form → geometry.Made → ∃ k', CompiledKernel.emit dim (form.withInputs
          (Function.update (f.afterCalls calls).given c.name c.function)) = .ok k' ∧
        (·.data) <$> (FormAssembler.updateInput c.name c.function).finished (f.afterCalls calls).assembler =
          k'.prepare bases geometry) ∧
      ∀ e f', (FormAssembler.updateInput c.name c.function).run.run (f.afterCalls calls).assembler =
          (.error e, f') →
        f' = (f.afterCalls calls).assembler ∧ f.afterCalls (calls ++ [c]) = f.afterCalls calls := by
  obtain ⟨rfl, hordered⟩ := CompiledKernel.ordered_of_emit (hb.valid.form h) hk
  have hstart := FormAssembler.current_of_make hmake
  have hcurrent := hstart.afterCalls hordered calls
  have hemit : ∀ given, CompiledKernel.emit dim (k.form.withInputs given) = .ok (k.withInputs given) := by
    intro given
    rw [CompiledKernel.emit_withInputs, hk]
    rfl
  refine ⟨⟨_, hemit _, hcurrent.data⟩, ⟨hcurrent.kernel, hcurrent.bases, ?builtin⟩, fun c => ?_⟩
  case builtin =>
    exact fun field hfield which hbuiltin => hstart.builtin hordered hcurrent hfield hbuiltin
  obtain ⟨hfails, hprepares, -⟩ := hcurrent.updateInput (c := c) hordered
  refine ⟨hfails, fun hsets hgeometry => ⟨_, hemit _, hprepares hsets hgeometry⟩, fun e f' hrun => ?_⟩
  have hsame := FormAssembler.eq_of_updateInput_error hrun
  refine ⟨hsame, ?_⟩
  rw [FormAssembler.afterCalls, List.foldl_append, List.foldl_cons, List.foldl_nil]
  show (f.afterCalls calls).call c = _
  rw [InputHistory.call, hrun, hsame]

/-- The source that is one everywhere. -/
def unitSource : InputFunction ℚ := fun _ => .ok 1

/-- A linear form over the rational numbers with a source: weighted in a precomputed field, and that squared
in another. -/
def sourceForm : Form ℚ where
  name := "source"
  dim := 2
  arity := .linear
  components := 1
  symmetric := false
  fields := [⟨0, "weight", .scalar, false, .builtin .weight⟩,
    ⟨1, "source", .scalar, false, .input (some unitSource)⟩,
    ⟨2, "weighted", .scalar, false, .precomputed (some (.binary .mul (.field "source" .scalar false)
      (.field "weight" .scalar false)))⟩,
    ⟨3, "squared", .scalar, false, .precomputed (some (.binary .mul (.field "weighted" .scalar false)
      (.field "weighted" .scalar false)))⟩]
  accumulations := [⟨0, some (.binary .mul (.field "squared" .scalar false) (.deriv "v" [0, 0]))⟩]
  requirements := { weight := true, jacobian := true }

/-- Four calls: of a field that is no input, without a function, with a function that fails at some nodes,
and with one that has values. -/
def sourceCalls : List (InputCall ℚ) :=
  [⟨"weight", some fun _ => .ok 2⟩, ⟨"source", none⟩,
    ⟨"source", some fun x => if x.getD 0 0 < 1 / 2 then .ok 3 else .error (.tape .emptyExpression)⟩,
    ⟨"source", some fun x => .ok (x.getD 0 0 + 4)⟩]

/-- After these calls the data are those of the form with the last function, and one call more gives those
of the form itself. -/
theorem updates_current_sourceForm : ∃ k f, CompiledKernel.emit 2 sourceForm = .ok k ∧
    (FormAssembler.make (some k) (.shared [unitKnots, unitKnots]) (.identity 2)).result = .ok f ∧
      ((f.afterCalls sourceCalls).given "source").isSome = true ∧
      (∃ k', CompiledKernel.emit 2 (sourceForm.withInputs (f.afterCalls sourceCalls).given) = .ok k' ∧
        k'.prepare (.shared [unitKnots, unitKnots]) (.identity 2) =
          .ok (f.afterCalls sourceCalls).assembler.data) ∧
      ∃ k', CompiledKernel.emit 2 (sourceForm.withInputs (Function.update
          (f.afterCalls sourceCalls).given "source" (some unitSource))) = .ok k' ∧
        (·.data) <$> (FormAssembler.updateInput "source" (some unitSource)).finished
            (f.afterCalls sourceCalls).assembler =
          k'.prepare (.shared [unitKnots, unitKnots]) (.identity 2) := by
  have hfield : ∀ name, (Expr.ofField name .scalar false : Except Error (Expr ℚ)) =
      .ok (.field name .scalar false) → (Expr.field name .scalar false : Expr ℚ).Built :=
    fun _ hname => .field hname
  have htest : (Expr.deriv "v" [0, 0] : Expr ℚ).Built := .deriv (rfl : Expr.ofDeriv "v" [0, 0] = _)
  have hproduct : ∀ {e e' : Expr ℚ}, e.Built → e'.Built →
      Operand.arith .mul (some e) (some e') = .ok (.binary .mul e e') →
      ∀ x, some (Expr.binary .mul e e') = some x → x.Built :=
    fun he he' hmul x hx => Option.some.inj hx ▸ .arith he he' hmul
  have hbuilder : ∃ b : FormBuilder ℚ, b.Reachable ∧ b.finalize = .ok sourceForm := by
    refine ⟨_, .call (c := .addToSlot 0 (some (.binary .mul (.field "squared" .scalar false)
        (.deriv "v" [0, 0])))) (.call (c := .precompute "squared" (some (.binary .mul
        (.field "weighted" .scalar false) (.field "weighted" .scalar false))) false)
      (.call (c := .precompute "weighted" (some (.binary .mul (.field "source" .scalar false)
          (.field "weight" .scalar false))) false)
        (.call (c := .inputFunction "source" (some unitSource)) (.call (c := .quadratureWeight)
          (.make (rfl : FormBuilder.make "source" 2 .linear 1 false = _))
          fun _ h => nomatch h) fun _ h => nomatch h) ?_) ?_) ?_, rfl⟩
    · exact hproduct (hfield "source" rfl) (hfield "weight" rfl) rfl
    · exact hproduct (hfield "weighted" rfl) (hfield "weighted" rfl) rfl
    · exact hproduct (hfield "squared" rfl) htest rfl
  obtain ⟨b, hb, hfinal⟩ := hbuilder
  have hmakes : (do
      let k ← CompiledKernel.emit 2 sourceForm
      let f ← (FormAssembler.make (some k) (.shared [unitKnots, unitKnots]) (.identity 2)).result
      pure ((f.afterCalls sourceCalls).given "source").isSome) = .ok true := by
    decide +kernel
  obtain ⟨k, hk, hmakes⟩ := bind_eq_ok_iff.mp hmakes
  obtain ⟨f, hf, hmakes⟩ := bind_eq_ok_iff.mp hmakes
  obtain ⟨hcurrent, -, hcalls⟩ := hb.updates_current hfinal hk hf sourceCalls
  have hmap : (GeometryMap.identity 2 : GeometryMap ℚ).Made :=
    .identity (rfl : GeometryMap.ofDim 2 = .ok (.identity 2))
  have hsets : InputCall.Sets ⟨"source", some unitSource⟩ sourceForm :=
    ⟨⟨_, List.mem_of_getElem? (i := 1) rfl, rfl, _, rfl⟩, unitSource, rfl⟩
  exact ⟨k, f, hk, hf, Except.ok.inj hmakes, hcurrent, (hcalls ⟨"source", some unitSource⟩).2.1 hsets hmap⟩

/-- Data with a physical point, but without any array. -/
def arraysMissing : KernelData ℚ :=
  { KernelData.uninitialized with fields := Array.replicate 4 .empty, points := ⟨[1, 1], 1, 2, #[0, 0]⟩ }

/-- **The update of a kernel is not atomic:** the new values are in place when it turns out that there is no
weight to multiply them by. -/
theorem CompiledKernel.updateInput_keeps_values : ∃ k data, CompiledKernel.emit 2 sourceForm = .ok k ∧
    (k.updateInput "source" (some unitSource)).run.run arraysMissing =
        (.error (.kernel .unevaluatedDependency), data) ∧
      (arraysMissing.fieldArray 1).data = #[] ∧ (data.fieldArray 1).data = #[1] := by
  have hrun : (do
      let k ← CompiledKernel.emit 2 sourceForm
      let (result, data) := (k.updateInput "source" (some unitSource)).run.run arraysMissing
      pure (result, (data.fieldArray 1).data)) = .ok (.error (.kernel .unevaluatedDependency), #[1]) := by
    decide +kernel
  obtain ⟨k, hk, hrun⟩ := bind_eq_ok_iff.mp hrun
  obtain ⟨hresult, hdata⟩ := Prod.mk.inj (Except.ok.inj hrun)
  exact ⟨k, _, hk, Prod.ext hresult rfl, rfl, hdata⟩

end Galerkin
