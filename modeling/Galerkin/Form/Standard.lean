import Galerkin.Form.Builder

/-! # Standard forms

A `FormSpec` describes a form for every dimension at once. In space-time forms the last axis is time.

* **`FormSpec.build`** — the form in a given dimension;
* **`mass`**, **`stiffness`**, **`heat`**, **`wave`**, **`divDiv`** — bilinear forms;
* **`load`**, **`vectorLoad`** — linear forms with given source functions. -/

namespace Galerkin

variable {α : Type}

/-- **A form in every dimension:** the number of components depends on the dimension, and the body
registers fields and adds accumulations. -/
structure FormSpec (α : Type) where
  name : String
  arity : Arity := .bilinear
  components : Nat → Int := fun _ => 1
  symmetric : Bool := false
  body : Building α Unit

namespace FormSpec

/-- The form in dimension `dim`. -/
def build (spec : FormSpec α) (dim : Int) : Except Error (Form α) := do
  require (decide (1 ≤ dim)) (.form (.specDimension dim))
  let start ← FormBuilder.make spec.name dim spec.arity (spec.components dim.toNat) spec.symmetric
  let (result, b) := (spec.body.run).run start
  result
  b.finalize

end FormSpec

namespace StandardForm

open FormBuilder

/-! ## (1) Arithmetic inside a body -/

/-- The product of two expressions. -/
def times (x y : Expr α) : Building α (Expr α) := Operand.arith .mul (some x) (some y)

/-- The sum of two expressions. -/
def plus (x y : Expr α) : Building α (Expr α) := Operand.arith .add (some x) (some y)

/-- The name of trial functions. -/
def trialName : String := BasisRole.trial.name

/-- The name of test functions. -/
def testName : String := BasisRole.test.name

/-! ## (2) Mass and stiffness -/

/-- **Mass:** the integral of `u v`. -/
def mass : FormSpec α where
  name := "mass"
  symmetric := true
  body := do
    let w ← quadratureWeight
    let u ← basisValue trialName
    let v ← basisValue testName
    add (some (← times (← times w u) v))

/-- The product of entries `(k, r)` and `(k, c)` of a matrix. -/
def columnProduct (matrix : Expr α) (r c k : Nat) : Building α (Expr α) := do
  let x ← Operand.entry (some matrix) k r
  let y ← Operand.entry (some matrix) k c
  times x y

/-- Column `r` times column `c` of a matrix with `dim` rows, scaled by `weight`. -/
def weightedEntry (weight matrix : Expr α) (dim r c : Nat) : Building α (Expr α) := do
  let first ← columnProduct matrix r c 0
  let sum ← (List.range' 1 (dim - 1)).foldlM
    (fun sum k => do plus sum (← columnProduct matrix r c k)) first
  times weight sum

/-- **Stiffness:** the integral of the product of the physical gradients, as `(B ∇u) · ∇v` with the
symmetric matrix `B` of the pulled-back coefficients, which is precomputed over the grid. -/
def stiffness : FormSpec α where
  name := "stiffness"
  symmetric := true
  body := do
    let d := (← get).dim
    let jacobian ← inverseTransposed
    let w ← quadratureWeight
    let entries ← (Shape.matrix d d).positions.mapM fun (r, c) =>
      some <$> weightedEntry w jacobian d r c
    let _ ← precompute "B" (some (← Expr.ofMatrix d d entries)) true
    let coefficients ← (← get).field "B"
    let gu ← gradient trialName [] []
    let gv ← gradient testName [] []
    let flux ← Operand.matmul (some coefficients) (some gu)
    add (some (← Operand.inner (some flux) (some gv)))

/-! ## (3) Space-time forms -/

/-- The product of the space parts of two space-time gradients. -/
def spaceProduct (dim : Nat) (x y : Expr α) : Building α (Expr α) := do
  let xs ← Operand.sliceRange (some x) 0 ((dim : Int) - 1)
  let ys ← Operand.sliceRange (some y) 0 ((dim : Int) - 1)
  Operand.inner (some xs) (some ys)

/-- The time component of a space-time gradient. -/
def timePart (x : Expr α) : Building α (Expr α) := Operand.index (some x) (-1)

/-- **Heat:** the integral of `∂u/∂t v + ∇u · ∇v` with space gradients. -/
def heat : FormSpec α where
  name := "heat_st"
  body := do
    let d := (← get).dim
    require (decide (2 ≤ d)) (.form .heatDimension)
    let w ← quadratureWeight
    let gu ← physicalGradient trialName []
    let gv ← physicalGradient testName []
    let v ← basisValue testName
    let rate ← times (← timePart gu) v
    add (some (← times w (← plus rate (← spaceProduct d gu gv))))

/-- **Wave:** the integral of `∂²u/∂t² ∂v/∂t + ∇u · ∂∇v/∂t` with space gradients. -/
def wave : FormSpec α where
  name := "wave_st"
  body := do
    let d := (← get).dim
    require (decide (2 ≤ d)) (.form .waveDimension)
    let time := (← unitOrder d (-1)).map Int.ofNat
    let w ← quadratureWeight
    let utt ← timePart (← physicalGradient trialName time)
    let vt ← timePart (← physicalGradient testName [])
    let gu ← physicalGradient trialName []
    let gvt ← defineLocal "gv_t" (some (← physicalGradient testName time))
    let rate ← times utt vt
    add (some (← times w (← plus rate (← spaceProduct d gu gvt))))

/-! ## (4) Vector forms -/

/-- Adds `w` times component `j` of `gu` times component `i` of `gv` to the slot of `(i, j)`. -/
def addComponentPair (dim : Nat) (w gu gv : Expr α) (i j : Nat) : Building α Unit := do
  let uj ← Operand.index (some gu) j
  let vi ← Operand.index (some gv) i
  addToSlot ((dim * i + j : Nat) : Int) (some (← times (← times w uj) vi))

/-- **Divergence times divergence:** slot `dim * i + j` holds the integral of `∂u/∂x_j ∂v/∂x_i`. -/
def divDiv : FormSpec α where
  name := "divdiv"
  components := fun dim => dim
  symmetric := true
  body := do
    let d := (← get).dim
    let w ← quadratureWeight
    let gu ← physicalGradient trialName []
    let gv ← physicalGradient testName []
    (Shape.matrix d d).positions.forM fun (i, j) => addComponentPair d w gu gv i j

/-! ## (5) Loads -/

/-- Adds `w` times the field `name` times `v` to a slot. -/
def addSource (w v : Expr α) (name : String) (slot : Nat) : Building α Unit := do
  let source ← (← get).field name
  addToSlot (slot : Int) (some (← times (← times w source) v))

/-- The form of a load in which component `c` is the field `names[c]` times a test function. -/
def loadBody (sources : List (String × Option (InputFunction α))) : Building α Unit := do
  sources.forM fun (name, function) => discard (inputFunction name function)
  let w ← quadratureWeight
  let v ← basisValue testName
  sources.zipIdx.forM fun ((name, _), slot) => addSource w v name slot

/-- **Load:** the integral of `f v`. -/
def load (function : Option (InputFunction α)) : Except Error (FormSpec α) := do
  require function.isSome (.form .loadSource)
  pure { name := "load", arity := .linear, body := loadBody [("f", function)] }

/-- The name of the source function of a component. -/
def sourceName (component : Nat) : String := s!"f{component}"

/-- **Vector load:** component `c` is the integral of `f_c v`. -/
def vectorLoad (functions : List (Option (InputFunction α))) : Except Error (FormSpec α) := do
  require (!functions.isEmpty) (.form .vectorLoadEmpty)
  require (functions.all Option.isSome) (.form .vectorLoadSource)
  pure {
    name := "vector_load"
    arity := .linear
    components := fun _ => functions.length
    body := loadBody (functions.zipIdx.map fun (f, c) => (sourceName c, f)) }

/-! ## (6) Forms by name -/

/-- The bilinear standard forms. -/
def bilinearForms : List (String × FormSpec α) :=
  [("mass", mass), ("stiffness", stiffness), ("heat", heat), ("wave", wave), ("divdiv", divDiv)]

end StandardForm

end Galerkin
