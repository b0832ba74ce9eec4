import Galerkin.Kernel.Compiled
import Galerkin.Proofs.Expr.Values
import Galerkin.Proofs.Steps

/-! # Forms with other input functions

The functions of the input fields of a form can be replaced. Lowering looks at the names, shapes and
expressions of fields and never at their functions, so the programs stay the same.

* **`Form.withInputs`** — the form with given functions for its input fields;
* **`lower_withInputs`**, **`lowerForm_withInputs`**, **`lowerField_withInputs`** — it is lowered as before;
* **`CompiledKernel.emit_withInputs`** — its kernel has the same programs. -/

namespace Galerkin

variable {α : Type}

/-! ## (1) Given functions -/

/-- Functions for input fields by name; a field without one keeps its own. -/
abbrev InputFunctions (α : Type) := String → Option (InputFunction α)

/-- The definition with a given function, if it is that of an input field. -/
def FieldDefinition.withInput (given : Option (InputFunction α)) : FieldDefinition α → FieldDefinition α
  | .input function => .input (given.or function)
  | .builtin which => .builtin which
  | .precomputed e => .precomputed e
  | .perEntry e => .perEntry e

/-- **The field with its given function,** if it is an input field and has one. -/
def FieldVariable.withInput (given : InputFunctions α) (f : FieldVariable α) : FieldVariable α :=
  { f with definition := f.definition.withInput (given f.name) }

namespace Form

/-- **The form with given functions** for its input fields. -/
def withInputs (form : Form α) (given : InputFunctions α) : Form α :=
  { form with fields := form.fields.map (·.withInput given) }

variable (form : Form α) (given : InputFunctions α)

/-- The field of a name, with its given function. -/
theorem field_withInputs (name : String) :
    (form.withInputs given).field name = (·.withInput given) <$> form.field name := by
  have hname : ((·.name == name) ∘ FieldVariable.withInput given : FieldVariable α → Bool) =
    (·.name == name) := rfl
  unfold field withInputs
  rw [List.find?_map, hname]
  cases form.fields.find? (·.name == name) <;> rfl

end Form

/-! ## (2) Lowering -/

variable [Scalar α] [DecidableEq α] (form : Form α) (given : InputFunctions α)

/-- **An expression is lowered as before,** given how its fields are. -/
theorem lower_withInputs (target : LoweringTarget) (fields : FieldLookup α) (e : Expr α) :
    lower (form.withInputs given) target fields e = lower form target fields e := by
  induction e using Expr.structural_induction with
  | const c => simp only [lower]
  | field name shape symmetric => simp only [lower]
  | binary op lhs rhs hl hr => simp only [lower, hl, hr]
  | index vector k hv => simp only [lower, hv]
  | entry matrix i j hm => simp only [lower, hm]
  | slice vector ks hv => simp only [lower, hv]
  | matmul matrix vector hm hv => simp only [lower, hm, hv]
  | deriv basis orders =>
    -- The role of a basis function depends on the arity and the name of the form only.
    simp only [lower]
    rfl
  | compose shape components hc =>
    simp only [lower]
    induction components with
    | nil => simp only [lowerFirsts]
    | cons e es ih =>
      simp only [lowerFirsts, hc e (List.mem_cons_self ..),
        ih fun x hx => hc x (List.mem_cons_of_mem _ hx)]

/-- The same for operands. -/
theorem lowerOperand_withInputs (target : LoweringTarget) (fields : FieldLookup α) (o : Operand α) :
    lowerOperand (form.withInputs given) target fields o = lowerOperand form target fields o := by
  cases o with
  | none => rfl
  | some e => exact lower_withInputs form given target fields e

/-- **A field has the same registers,** whatever function it samples. -/
theorem fieldRegisters_withInputs (target : LoweringTarget) (depth : Nat) :
    fieldRegisters (form.withInputs given) target depth = fieldRegisters form target depth := by
  induction depth with
  | zero => rfl
  | succ depth ih =>
    funext name
    unfold fieldRegisters
    rw [form.field_withInputs, ih]
    simp only [lowerOperand_withInputs]
    cases form.field name with
    | error e => rfl
    | ok f =>
      obtain ⟨id, fname, shape, symmetric, definition⟩ := f
      cases definition <;> rfl

/-- The same for operands of the form. -/
theorem lowerIn_withInputs (target : LoweringTarget) :
    lowerIn (form.withInputs given) target = lowerIn form target := by
  funext o
  unfold lowerIn
  rw [lowerOperand_withInputs, fieldRegisters_withInputs, Form.withInputs, List.length_map]

/-- **The program of a form** does not depend on the functions of its input fields. -/
theorem lowerForm_withInputs : lowerForm (form.withInputs given) = lowerForm form := by
  have haccumulation : lowerAccumulation (form.withInputs given) = lowerAccumulation form := by
    funext a
    unfold lowerAccumulation
    rw [lowerIn_withInputs]
  unfold lowerForm
  rw [haccumulation]
  rfl

/-- **The program of a field** does not depend on the functions of the input fields. -/
theorem lowerField_withInputs (f : FieldVariable α) :
    lowerField (form.withInputs given) (f.withInput given) = lowerField form f := by
  obtain ⟨id, name, shape, symmetric, definition⟩ := f
  cases definition with
  | precomputed e =>
    unfold lowerField
    rw [lowerIn_withInputs]
    rfl
  | _ => rfl

namespace CompiledKernel

/-! ## (3) Kernels -/

/-- The kernel of a form with given functions. -/
def withInputs (k : CompiledKernel α) (given : InputFunctions α) : CompiledKernel α :=
  { k with form := k.form.withInputs given }

/-- The program of a field with the number of the field, if it is precomputed. -/
def fieldProgram? (form : Form α) (f : FieldVariable α) : Except Error (Option (Nat × Program α)) :=
  match f.definition with
  | .precomputed _ => do return some (f.id, ← lowerField form f)
  | _ => pure none

/-- The programs of a form are those of its fields. -/
theorem precomputedPrograms_eq :
    precomputedPrograms form = form.fields.filterMapM (fieldProgram? form) := rfl

/-- The programs of the precomputed fields do not depend on the functions of the input fields. -/
theorem precomputedPrograms_withInputs :
    precomputedPrograms (form.withInputs given) = precomputedPrograms form := by
  have hstep : ∀ f : FieldVariable α,
      fieldProgram? (form.withInputs given) (f.withInput given) = fieldProgram? form f := by
    intro f
    unfold fieldProgram?
    rw [lowerField_withInputs]
    obtain ⟨id, name, shape, symmetric, definition⟩ := f
    cases definition <;> rfl
  rw [precomputedPrograms_eq, precomputedPrograms_eq]
  show List.filterMapM _ (form.fields.map (·.withInput given)) = _
  induction form.fields with
  | nil => rw [List.map_nil, List.filterMapM_nil, List.filterMapM_nil]
  | cons f fs ih => rw [List.map_cons, List.filterMapM_cons, List.filterMapM_cons, hstep, ih]

/-- **The kernel of a form with given functions** has the programs of the form. -/
theorem emit_withInputs (dim : Nat) :
    emit dim (form.withInputs given) = (·.withInputs given) <$> emit dim form := by
  unfold emit
  rw [lowerForm_withInputs, precomputedPrograms_withInputs]
  simp only [map_bind]
  rfl

end CompiledKernel

end Galerkin
