import Galerkin.Error.Status
import Galerkin.Expr.Shape

/-! # Causes of failure

An operation of this library fails with a *cause*, a value of `Error`. Causes are grouped by the
domain they arise in; the status and the wording of each cause are given once, by `Error.status` and
`Error.message`.

* **`IndexSite`** — the places where an index is checked against a bound;
* **`KnotError`**, **`QuadratureError`**, **`GeometryError`**, **`ExprError`**, **`FormError`**,
  **`TapeError`**, **`KernelError`**, **`SparsityError`**, **`AssemblyError`** — causes by domain;
* **`Error`** — all of them;
* **`checkIndex`** — the range check, on 64-bit words as indices are;
* **`InPlace`** — steps that change a state and may fail. -/

namespace Galerkin

/-! ## (1) Index checks -/

/-- Where an index was found out of range. -/
inductive IndexSite where
  | jointSupportFunction
  | leftRegister
  | rightRegister
  | tapeSlot
  | tapeRegister
  | formSlot
  | entryTest
  | entryTrial
  | loadTest
  | bandedTestCandidate
  | bandedTrialCandidate
  | bandedPosition
  | csrRow
  | csrColumn
  | basisIndex (axis : Nat)
  | component
  | globalIndex
  | pairRow
  | pairColumn
  | neighborAxis
  | neighborFunction
  | formSupportAxis
  | formNeighborAxis
  | assembleTestCandidate
  | assembleTrialCandidate
  deriving Repr, DecidableEq

/-- The text that names a site. -/
def IndexSite.text : IndexSite → String
  | jointSupportFunction => "KnotVector::jointSupportRange: basis function"
  | leftRegister => "ProgramBuilder::binary: left register"
  | rightRegister => "ProgramBuilder::binary: right register"
  | tapeSlot => "ProgramBuilder::accumulate: output slot"
  | tapeRegister => "ProgramBuilder::accumulate: register"
  | formSlot => "FormBuilder::addToSlot: output slot"
  | entryTest => "entry: test index"
  | entryTrial => "entry: trial index"
  | loadTest => "entry1: test index"
  | bandedTestCandidate => "MultiLevelBandedMatrix: test candidate"
  | bandedTrialCandidate => "MultiLevelBandedMatrix: trial candidate"
  | bandedPosition => "MultiLevelBandedMatrix::entry: position"
  | csrRow => "buildCsr: row index"
  | csrColumn => "buildCsr: column index"
  | basisIndex axis => s!"BaseAssembler: basis index on axis {axis}"
  | component => "BaseAssembler::toLinearIndex: component"
  | globalIndex => "BaseAssembler::fromLinearIndex: global index"
  | pairRow => "multiEntries: row index"
  | pairColumn => "multiEntries: column index"
  | neighborAxis => "neighborRange: axis"
  | neighborFunction => "neighborRange: basis index"
  | formSupportAxis => "FormAssembler::meshSupport: axis"
  | formNeighborAxis => "FormAssembler::neighborRange: axis"
  | assembleTestCandidate => "assembleBanded: test candidate"
  | assembleTrialCandidate => "assembleBanded: trial candidate"

/-! ## (2) Causes by domain -/

/-- Causes that concern knot vectors and tables of basis function derivatives. -/
inductive KnotError where
  | negativeDegree
  | tooShort
  | decreasing
  | emptyDomain
  | multiplicity (function : Nat)
  | uniformNegativeDegree
  | uniformNoElement
  | uniformEmptyInterval
  | tableNegativeOrder
  | negativeOrder
  | outsideDomain (point : String)
  deriving Repr, DecidableEq

/-- The wording of a knot vector cause. -/
def KnotError.message : KnotError → String
  | negativeDegree => "KnotVector requires non-negative degree"
  | tooShort => "KnotVector: knot vector too short for degree"
  | decreasing => "KnotVector: knot vector must be non-decreasing"
  | emptyDomain => "KnotVector: empty parametric domain"
  | multiplicity function =>
    s!"KnotVector: knot multiplicity exceeds degree + 1 at function {function}"
  | uniformNegativeDegree => "openUniform: negative degree"
  | uniformNoElement => "openUniform: need at least one element"
  | uniformEmptyInterval => "openUniform: empty interval"
  | tableNegativeOrder => "DerivativeTable: negative derivative order"
  | negativeOrder => "evaluateDerivatives: negative derivative order"
  | outsideDomain point => s!"evaluateDerivatives: point {point} outside the parametric domain"

/-- Causes that concern quadrature rules. -/
inductive QuadratureError where
  | noPoints
  | tooManyPoints
  | emptyMesh
  | meshNotIncreasing
  | noAxes
  deriving Repr, DecidableEq

/-- The wording of a quadrature cause. -/
def QuadratureError.message : QuadratureError → String
  | noPoints => "GaussQuadrature1D: num_points must be positive"
  | tooManyPoints => "GaussQuadrature1D: num_points exceeds safe limit (128)"
  | emptyMesh => "makeIteratedGauss: mesh needs at least one element"
  | meshNotIncreasing => "makeIteratedGauss: mesh must be strictly increasing"
  | noAxes => "makeTensorQuadrature: no axes given"

/-- Causes that concern geometry maps. -/
inductive GeometryError where
  | pointSize (given expected : Nat)
  | outputSize
  | identityDimension
  | emptyBox
  | cornerSizes
  | degenerateExtent (axis : Nat)
  | annulusRadii
  | functionDimension
  | missingEvaluation
  | missingJacobian
  | gridDimension (map grid : Nat)
  | jacobianDimension
  | jacobianComponents
  | singularJacobian (node : Nat)
  deriving Repr, DecidableEq

/-- The status of a geometry cause. -/
def GeometryError.status : GeometryError → Status
  | pointSize _ _ => .shapeMismatch
  | outputSize => .shapeMismatch
  | cornerSizes => .shapeMismatch
  | jacobianComponents => .shapeMismatch
  | gridDimension _ _ => .invalidDimension
  | _ => .invalidArgument

/-- The wording of a geometry cause. -/
def GeometryError.message : GeometryError → String
  | pointSize given expected =>
    s!"GeometryMap: parametric point has {given} coordinates, expected {expected}"
  | outputSize => "GeometryMap: output buffer has wrong size"
  | identityDimension => "IdentityMap: dimension must be positive"
  | emptyBox => "BoxMap: empty box"
  | cornerSizes => "BoxMap: lower and upper corners differ in dimension"
  | degenerateExtent axis => s!"BoxMap: degenerate extent along axis {axis}"
  | annulusRadii => "QuarterAnnulusMap: require 0 < r_inner < r_outer"
  | functionDimension => "FunctionMap: dimension must be positive"
  | missingEvaluation => "FunctionMap: missing evaluation callback"
  | missingJacobian => "FunctionMap: missing Jacobian callback"
  | gridDimension map grid =>
    s!"Geometry map of dimension {map} applied to a grid of dimension {grid}"
  | jacobianDimension => "determinantsAndInverses: dimension must be positive"
  | jacobianComponents =>
    "determinantsAndInverses: Jacobian array does not hold dim x dim entries"
  | singularJacobian node =>
    s!"determinantsAndInverses: singular Jacobian at grid node {node}"

/-- Causes that concern the building of expressions. -/
inductive ExprError where
  | empty
  | emptyOperand (operation : String)
  | shapesDiffer (operation : String) (left right : Shape)
  | indexRange (operation : String) (index : Int) (length : Nat)
  | emptyFieldName
  | emptyFieldShape
  | symmetricNotSquare (name : String)
  | emptyBasisName
  | emptyOrders
  | negativeOrder
  | noComponents
  | vectorComponent (shape : Shape)
  | emptyMatrix
  | matrixCount (given : Nat) (rows cols : Int)
  | matrixComponent (shape : Shape)
  | notVector (operation : String) (shape : Shape)
  | notMatrix (operation : String) (shape : Shape)
  | emptySlice
  | matmulLeft (shape : Shape)
  | matmulRight (shape : Shape)
  | matmulInner (cols rows : Nat)
  | innerOperands (left right : Shape)
  | innerLengths (left right : Nat)
  deriving Repr, DecidableEq

/-- The status of an expression cause. -/
def ExprError.status : ExprError → Status
  | empty => .invalidArgument
  | emptyOperand _ => .invalidArgument
  | emptyFieldName => .invalidArgument
  | emptyFieldShape => .invalidArgument
  | emptyBasisName => .invalidArgument
  | emptyOrders => .invalidArgument
  | negativeOrder => .invalidArgument
  | noComponents => .invalidArgument
  | emptyMatrix => .invalidArgument
  | _ => .shapeMismatch

/-- The wording of an expression cause. -/
def ExprError.message : ExprError → String
  | empty => "Expr: empty expression"
  | emptyOperand operation => s!"{operation}: operand is an empty expression"
  | shapesDiffer operation left right =>
    "operator" ++ operation ++ ": shapes " ++ left.text ++ " and " ++ right.text ++ " differ"
  | indexRange operation index length =>
    s!"{operation}: index {index} out of range for length {length}"
  | emptyFieldName => "Expr::field: empty field name"
  | emptyFieldShape => "Expr::field: empty shape"
  | symmetricNotSquare name =>
    "Expr::field: only square matrices can be symmetric (" ++ name ++ ")"
  | emptyBasisName => "Expr::partialDeriv: empty basis name"
  | emptyOrders => "Expr::partialDeriv: empty derivative tuple"
  | negativeOrder => "Expr::partialDeriv: negative derivative order"
  | noComponents => "Expr::vector: no components"
  | vectorComponent shape =>
    "Expr::vector: component of shape " ++ shape.text ++ " is not a scalar"
  | emptyMatrix => "Expr::matrix: empty shape"
  | matrixCount given rows cols =>
    s!"Expr::matrix: {given} components for a {rows}x{cols} matrix"
  | matrixComponent shape =>
    "Expr::matrix: component of shape " ++ shape.text ++ " is not a scalar"
  | notVector operation shape =>
    operation ++ ": operand of shape " ++ shape.text ++ " is not a vector"
  | notMatrix operation shape =>
    operation ++ ": operand of shape " ++ shape.text ++ " is not a matrix"
  | emptySlice => "slice: empty index set"
  | matmulLeft shape => "matmul: left operand of shape " ++ shape.text ++ " is not a matrix"
  | matmulRight shape => "matmul: right operand of shape " ++ shape.text ++ " is not a vector"
  | matmulInner cols rows => s!"matmul: inner dimensions {cols} and {rows} differ"
  | innerOperands left right =>
    "inner: operands " ++ left.text ++ " and " ++ right.text ++ " must be vectors"
  | innerLengths left right => s!"inner: lengths {left} and {right} differ"

/-- Causes that concern the building of forms and the standard forms. -/
inductive FormError where
  | dimension
  | components
  | emptyName
  | reservedName (name : String)
  | duplicateName (name form : String)
  | emptyDefinition (name : String)
  | definitionShape (name : String) (given declared : Shape)
  | inputFunction (name : String)
  | inputShape (name : String)
  | emptyVector
  | emptyMatrix
  | matrixNotSquare (name : String)
  | precomputeSymmetric (name : String)
  | unknownName (name form : String)
  | trialInLinear (form : String)
  | unknownBasis (basis : String)
  | unregistered (name : String)
  | precomputedLocal (name : String)
  | precomputedBasis (basis : String)
  | tupleLength (length : Nat) (dim : Nat)
  | axisRange (axis : Int) (dim : Nat)
  | derivativeLength (length : Nat) (dim : Nat)
  | extraLength
  | negativeExtra
  | emptyAccumulation
  | accumulationShape (shape : Shape)
  | nothingAccumulated (form : String)
  | noField (form name : String)
  | specDimension (dim : Int)
  | heatDimension
  | waveDimension
  | loadSource
  | vectorLoadEmpty
  | vectorLoadSource
  deriving Repr, DecidableEq

/-- The status of a form cause. -/
def FormError.status : FormError → Status
  | definitionShape _ _ _ => .shapeMismatch
  | inputShape _ => .shapeMismatch
  | matrixNotSquare _ => .shapeMismatch
  | precomputeSymmetric _ => .shapeMismatch
  | tupleLength _ _ => .shapeMismatch
  | axisRange _ _ => .shapeMismatch
  | derivativeLength _ _ => .shapeMismatch
  | extraLength => .shapeMismatch
  | accumulationShape _ => .shapeMismatch
  | specDimension _ => .invalidDimension
  | heatDimension => .invalidDimension
  | waveDimension => .invalidDimension
  | _ => .invalidArgument

/-- The wording of a form cause. -/
def FormError.message : FormError → String
  | dimension => "FormBuilder: dimension must be positive"
  | components => "FormBuilder: at least one component required"
  | emptyName => "FormBuilder: empty field name"
  | reservedName name =>
    "FormBuilder: field name '" ++ name ++ "' is reserved for basis functions"
  | duplicateName name form =>
    "FormBuilder: field '" ++ name ++ "' already registered in form '" ++ form ++ "'"
  | emptyDefinition name => "FormBuilder: field '" ++ name ++ "' has an empty definition"
  | definitionShape name given declared =>
    "FormBuilder: definition of '" ++ name ++ "' has shape " ++ given.text ++ ", declared " ++
      declared.text
  | inputFunction name => "FormBuilder: input field '" ++ name ++ "' has no function"
  | inputShape name => "FormBuilder: input field '" ++ name ++ "' must be scalar"
  | emptyVector => "FormBuilder::registerVector: empty vector"
  | emptyMatrix => "FormBuilder::registerMatrix: empty matrix"
  | matrixNotSquare name =>
    "FormBuilder::registerMatrix: symmetric matrix '" ++ name ++ "' is not square"
  | precomputeSymmetric name =>
    "FormBuilder::precompute: only matrices can be symmetric (" ++ name ++ ")"
  | unknownName name form =>
    "FormBuilder: no field named '" ++ name ++ "' in form '" ++ form ++ "'"
  | trialInLinear form => "FormBuilder: linear form '" ++ form ++ "' has no trial function"
  | unknownBasis basis => "FormBuilder: unknown basis function '" ++ basis ++ "'"
  | unregistered name => "FormBuilder: reference to unregistered field '" ++ name ++ "'"
  | precomputedLocal name =>
    "FormBuilder: precomputed field references local '" ++ name ++ "'"
  | precomputedBasis basis =>
    "FormBuilder: precomputed field references basis function '" ++ basis ++ "'"
  | tupleLength length dim =>
    s!"FormBuilder: derivative tuple of length {length} in a {dim}D form"
  | axisRange axis dim => s!"FormBuilder: axis {axis} out of range for {dim}D form"
  | derivativeLength length dim =>
    s!"FormBuilder::partialDeriv: tuple of length {length} in a {dim}D form"
  | extraLength => "FormBuilder::gradient: extra derivative tuple has wrong length"
  | negativeExtra => "FormBuilder::gradient: negative extra derivative"
  | emptyAccumulation => "FormBuilder::addToSlot: empty expression"
  | accumulationShape shape =>
    "FormBuilder::addToSlot: accumulated expression has shape " ++ shape.text
  | nothingAccumulated form => "FormBuilder: form '" ++ form ++ "' accumulates nothing"
  | noField form name => "Form '" ++ form ++ "' has no field named '" ++ name ++ "'"
  | specDimension dim => s!"FormSpec::build: invalid dimension {dim}"
  | heatDimension => "HeatForm: space-time form needs at least one space axis"
  | waveDimension => "WaveForm: space-time form needs at least one space axis"
  | loadSource => "LoadForm: empty source function"
  | vectorLoadEmpty => "VectorLoadForm: no source functions"
  | vectorLoadSource => "VectorLoadForm: empty source function"

/-- Causes that concern the instruction tape and the lowering of expressions onto it. -/
inductive TapeError where
  | noSlots
  | negativeField
  | emptyExpression
  | basisOnGrid (basis : String)
  | trialInLinear (form : String)
  | unknownBasis (basis : String)
  | localOnGrid (name : String)
  | notPrecomputed (name : String)
  | missingRegister
  | circularLocal (name : String)
  deriving Repr, DecidableEq

/-- The wording of a tape cause. -/
def TapeError.message : TapeError → String
  | noSlots => "ProgramBuilder: at least one output slot required"
  | negativeField => "ProgramBuilder::loadField: negative id"
  | emptyExpression => "Lowering: empty expression"
  | basisOnGrid basis =>
    "Lowering: basis function '" ++ basis ++ "' referenced by a grid-wide field definition"
  | trialInLinear form => "Lowering: trial function in linear form '" ++ form ++ "'"
  | unknownBasis basis => "Lowering: unknown basis function '" ++ basis ++ "'"
  | localOnGrid name => "Lowering: local field '" ++ name ++ "' used in a grid-wide definition"
  | notPrecomputed name => "lowerFieldDefinition: field '" ++ name ++ "' is not precomputed"
  | missingRegister => "Lowering: expression has no register for a component"
  | circularLocal name => "Lowering: local field '" ++ name ++ "' is defined by itself"

/-- Causes that concern compiled kernels and their grid data. -/
inductive KernelError where
  | unevaluatedDependency
  | geometryDimension (kernel : String) (dim map : Nat)
  | meshesDiffer (kernel : String) (axis : Nat)
  | noJacobianData (kernel field : String)
  /-- Values would be stored behind the end of the array of a geometry field. -/
  | noRoom (kernel field : String)
  | noField (kernel name : String)
  | notInput (kernel name : String)
  | emptyFunction (name : String)
  | uninitialized (kernel : String)
  | linearEntry (kernel : String)
  | bilinearLoad (kernel : String)
  | formDimension (dim : Nat) (form : String) (built : Nat)
  | derivativeOrder (form : String) (order supported : Nat)
  deriving Repr, DecidableEq

/-- The status of a kernel cause. -/
def KernelError.status : KernelError → Status
  | unevaluatedDependency => .assemblyError
  | noJacobianData _ _ => .assemblyError
  | noRoom _ _ => .assemblyError
  | uninitialized _ => .assemblyError
  | geometryDimension _ _ _ => .invalidDimension
  | formDimension _ _ _ => .invalidDimension
  | _ => .invalidArgument

/-- The wording of a kernel cause. -/
def KernelError.message : KernelError → String
  | unevaluatedDependency => "precomputed field depends on a field that has not been evaluated"
  | geometryDimension kernel dim map =>
    "Kernel '" ++ kernel ++
      s!"' is compiled for dimension {dim} but the geometry map has dimension {map}"
  | meshesDiffer kernel axis =>
    "Kernel '" ++ kernel ++ s!"': trial and test bases have different meshes on axis {axis}"
  | noJacobianData kernel field =>
    "Kernel '" ++ kernel ++ "': geometry field '" ++ field ++ "' requested without Jacobian data"
  | noRoom kernel field =>
    "Kernel '" ++ kernel ++ "': the array of geometry field '" ++ field ++ "' is too small"
  | noField kernel name => "Kernel '" ++ kernel ++ "' has no field named '" ++ name ++ "'"
  | notInput kernel name =>
    "Field '" ++ name ++ "' of kernel '" ++ kernel ++ "' is not an input function"
  | emptyFunction name => "updateInput: empty function for '" ++ name ++ "'"
  | uninitialized kernel => "updateInput: kernel data of '" ++ kernel ++ "' is not initialized"
  | linearEntry kernel => "entry: kernel '" ++ kernel ++ "' is a linear form"
  | bilinearLoad kernel => "entry1: kernel '" ++ kernel ++ "' is a bilinear form"
  | formDimension dim form built =>
    s!"KernelEmitter<{dim}>: form '" ++ form ++ s!"' was built for dimension {built}"
  | derivativeOrder form order supported =>
    "KernelEmitter: form '" ++ form ++
      s!"' needs derivative order {order}, supported up to {supported}"

/-- Causes that concern sparse and banded matrices. -/
inductive SparsityError where
  | transposeLengths
  | noMirror (test trial : Nat)
  | components
  | candidateLengths (axis : Nat)
  | entryCount (entries positions : Nat)
  | csrLengths (values rows cols : Nat)
  | csrDimensions
  deriving Repr, DecidableEq

/-- The wording of a sparsity cause. -/
def SparsityError.message : SparsityError → String
  | transposeLengths => "transposeIndex: test and trial arrays differ in length"
  | noMirror test trial => s!"transposeIndex: candidate ({test}, {trial}) has no mirrored pair"
  | components => "MultiLevelBandedMatrix: at least one component required"
  | candidateLengths axis =>
    s!"MultiLevelBandedMatrix: candidate arrays of axis {axis} differ in length"
  | entryCount entries positions =>
    s!"MultiLevelBandedMatrix: {entries} entries for {positions} positions"
  | csrLengths values rows cols =>
    s!"buildCsr: {values} values, {rows} rows and {cols} cols"
  | csrDimensions => "buildCsr: matrix dimensions exceed the storage index range"

/-- Causes that concern assemblers and the worker pool. -/
inductive AssemblyError where
  | negativeThreads
  | chunksPerWorker
  | components
  | emptyBasis
  | symmetricSpaces
  | nullKernel
  | nullEntryOutput
  | nullLoadOutput
  | entryOfLinear (name : String)
  | loadOfBilinear (name : String)
  | vectorOfBilinear (name : String)
  | matrixOfLinear (driver name : String)
  | emptyCandidates (axis : Nat)
  | noClone (name : String)
  | nullClone
  deriving Repr, DecidableEq

/-- The status of an assembly cause. -/
def AssemblyError.status : AssemblyError → Status
  | noClone _ => .notImplemented
  | _ => .invalidArgument

/-- The wording of an assembly cause. -/
def AssemblyError.message : AssemblyError → String
  | negativeThreads => "resolveNumThreads: negative thread count"
  | chunksPerWorker => "WorkerPool: chunks_per_worker must be positive"
  | components => "BaseAssembler: at least one component required"
  | emptyBasis => "BaseAssembler: empty basis on some axis"
  | symmetricSpaces => "BaseAssembler: a symmetric form needs identical test and trial spaces"
  | nullKernel => "FormAssembler kernel is null"
  | nullEntryOutput => "entryBlock output is null"
  | nullLoadOutput => "entry1Block output is null"
  | entryOfLinear name => "entryBlock: '" ++ name ++ "' is a linear form"
  | loadOfBilinear name => "entry1Block: '" ++ name ++ "' is a bilinear form"
  | vectorOfBilinear name => "assembleVector: '" ++ name ++ "' is a bilinear form"
  | matrixOfLinear driver name =>
    driver ++ ": '" ++ name ++ "' is a linear form, use assembleVector()"
  | emptyCandidates axis => s!"assembleBanded: invalid candidate arrays on axis {axis}"
  | noClone name => "Feature not implemented: cloneForWorker for assembler '" ++ name ++ "'"
  | nullClone => "cloneForWorker result is null"

/-! ## (3) All causes -/

/-- **The cause of a failure.** `reported` carries what a supplied function raised. -/
inductive Error where
  | index (site : IndexSite) (index bound : UInt64)
  | knot (cause : KnotError)
  | quadrature (cause : QuadratureError)
  | geometry (cause : GeometryError)
  | expr (cause : ExprError)
  | form (cause : FormError)
  | tape (cause : TapeError)
  | kernel (cause : KernelError)
  | sparsity (cause : SparsityError)
  | assembly (cause : AssemblyError)
  | reported (status : Status) (text : String)
  deriving Repr, DecidableEq

namespace Error

/-- The end of every message about an index. -/
def indexText (what : String) (index bound : UInt64) : String :=
  what ++ " (index " ++ toString index.toNat ++ " not in [0, " ++ toString bound.toNat ++ "))"

/-- The status of a cause. -/
def status : Error → Status
  | index _ _ _ => .indexOutOfRange
  | knot _ => .invalidArgument
  | quadrature _ => .invalidArgument
  | geometry cause => cause.status
  | expr cause => cause.status
  | form cause => cause.status
  | tape _ => .invalidArgument
  | kernel cause => cause.status
  | sparsity _ => .invalidArgument
  | assembly cause => cause.status
  | reported status _ => status

/-- The wording of a cause. -/
def message : Error → String
  | index site i bound => indexText site.text i bound
  | knot cause => cause.message
  | quadrature cause => cause.message
  | geometry cause => cause.message
  | expr cause => cause.message
  | form cause => cause.message
  | tape cause => cause.message
  | kernel cause => cause.message
  | sparsity cause => cause.message
  | assembly cause => cause.message
  | reported _ text => text

end Error

/-! ## (4) Checks -/

/-- Fails with `cause` unless the condition holds. -/
def require (condition : Bool) (cause : Error) : Except Error Unit :=
  if condition then .ok () else .error cause

/-- **Range check.** Accepts exactly the indices from zero to below the bound; a negative index is
reported as the 64-bit word it wraps around to. -/
def checkIndex (site : IndexSite) (index : Int) (bound : Nat) : Except Error Unit :=
  require (decide (0 ≤ index) && decide (index < (bound : Int)))
    (.index site (UInt64.ofInt index) (UInt64.ofNat bound))

/-- The range check of an index that is a 64-bit word. -/
def checkWord (site : IndexSite) (index bound : UInt64) : Except Error Unit :=
  require (decide (index < bound)) (.index site index bound)

theorem require_eq_ok_iff {condition : Bool} {cause : Error} :
    require condition cause = .ok () ↔ condition = true := by
  cases condition <;> simp [require]

theorem checkIndex_eq_ok_iff {site : IndexSite} {index : Int} {bound : Nat} :
    checkIndex site index bound = .ok () ↔ 0 ≤ index ∧ index < (bound : Int) := by
  simp [checkIndex, require_eq_ok_iff]

theorem checkWord_eq_ok_iff {site : IndexSite} {index bound : UInt64} :
    checkWord site index bound = .ok () ↔ index < bound := by
  simp [checkWord, require_eq_ok_iff]

/-! ## (5) Changes in place -/

/-- **Steps that change a state in place.** A failure does not undo the changes made before it. -/
abbrev InPlace (σ β : Type) := ExceptT Error (StateM σ) β

namespace InPlace

variable {σ : Type}

/-- Puts the state that `f` makes of the present one in its place. -/
def change (f : σ → Except Error σ) : InPlace σ Unit := do
  set (← f (← get))

/-- The state after steps on `s`, if none of them fails. -/
def finished (x : InPlace σ Unit) (s : σ) : Except Error σ :=
  match x.run.run s with
  | (.ok (), s') => .ok s'
  | (.error e, _) => .error e

end InPlace

end Galerkin
