import Galerkin.Assembly.Assembler
import Galerkin.Assembly.FormAssembler
import Galerkin.Assembly.Matrix
import Galerkin.Assembly.Outcome
import Galerkin.Assembly.WorkerPool
import Galerkin.Basis.Derivatives
import Galerkin.Basis.KnotVector
import Galerkin.Error
import Galerkin.Error.Report
import Galerkin.Error.Status
import Galerkin.Expr.Basic
import Galerkin.Expr.Build
import Galerkin.Expr.Shape
import Galerkin.Form.Basic
import Galerkin.Form.Builder
import Galerkin.Form.Lowering
import Galerkin.Form.Standard
import Galerkin.Geometry.Jacobian
import Galerkin.Geometry.Map
import Galerkin.Index.Grid
import Galerkin.Index.Interval
import Galerkin.Index.MultiIndex
import Galerkin.Index.Search
import Galerkin.Kernel.Compiled
import Galerkin.Kernel.Entry
import Galerkin.Kernel.Prepare
import Galerkin.Log.Level
import Galerkin.Log.Logger
import Galerkin.Proofs.Assembly.Banded
import Galerkin.Proofs.Assembly.BandedSymmetry
import Galerkin.Proofs.Assembly.Batches
import Galerkin.Proofs.Assembly.Chunks
import Galerkin.Proofs.Assembly.Coupling
import Galerkin.Proofs.Assembly.Entries
import Galerkin.Proofs.Assembly.Expansion
import Galerkin.Proofs.Assembly.Halves
import Galerkin.Proofs.Assembly.Interleaving
import Galerkin.Proofs.Assembly.LoadVectors
import Galerkin.Proofs.Assembly.Neighbors
import Galerkin.Proofs.Assembly.Numbering
import Galerkin.Proofs.Assembly.Pools
import Galerkin.Proofs.Assembly.Positions
import Galerkin.Proofs.Assembly.Queries
import Galerkin.Proofs.Assembly.Schedules
import Galerkin.Proofs.Assembly.Sparse
import Galerkin.Proofs.Assembly.Strategies
import Galerkin.Proofs.Assembly.Totality
import Galerkin.Proofs.Assembly.Visits
import Galerkin.Proofs.Assembly.Workers
import Galerkin.Proofs.Assembly.Writes
import Galerkin.Proofs.Basis.Activity
import Galerkin.Proofs.Basis.DerivativeTables
import Galerkin.Proofs.Basis.Derivatives
import Galerkin.Proofs.Basis.Mesh
import Galerkin.Proofs.Basis.OpenUniform
import Galerkin.Proofs.Basis.Positivity
import Galerkin.Proofs.Basis.Recurrence
import Galerkin.Proofs.Basis.Search
import Galerkin.Proofs.Basis.Span
import Galerkin.Proofs.Basis.Splines
import Galerkin.Proofs.Basis.Starts
import Galerkin.Proofs.Basis.Supports
import Galerkin.Proofs.Basis.Unity
import Galerkin.Proofs.Basis.Workspace
import Galerkin.Proofs.Exact
import Galerkin.Proofs.Expr.Calls
import Galerkin.Proofs.Expr.Composition
import Galerkin.Proofs.Expr.Construction
import Galerkin.Proofs.Expr.Operations
import Galerkin.Proofs.Expr.Values
import Galerkin.Proofs.Form.Bodies
import Galerkin.Proofs.Form.Coherence
import Galerkin.Proofs.Form.Correctness
import Galerkin.Proofs.Form.Direct
import Galerkin.Proofs.Form.Failures
import Galerkin.Proofs.Form.Inputs
import Galerkin.Proofs.Form.Integrands
import Galerkin.Proofs.Form.Kept
import Galerkin.Proofs.Form.Loads
import Galerkin.Proofs.Form.Lowering
import Galerkin.Proofs.Form.LoweringRuns
import Galerkin.Proofs.Form.Meaning
import Galerkin.Proofs.Form.PackedTriangle
import Galerkin.Proofs.Form.PointValues
import Galerkin.Proofs.Form.Programs
import Galerkin.Proofs.Form.Reading
import Galerkin.Proofs.Form.Registration
import Galerkin.Proofs.Form.Runs
import Galerkin.Proofs.Form.Sharing
import Galerkin.Proofs.Form.Standard
import Galerkin.Proofs.Form.SymmetricFields
import Galerkin.Proofs.Form.Uses
import Galerkin.Proofs.Form.Validity
import Galerkin.Proofs.Form.Vanishing
import Galerkin.Proofs.Geometry.Grids
import Galerkin.Proofs.Geometry.Images
import Galerkin.Proofs.Index.Arrays
import Galerkin.Proofs.Index.Box
import Galerkin.Proofs.Index.Linear
import Galerkin.Proofs.Index.Meeting
import Galerkin.Proofs.Index.Nodes
import Galerkin.Proofs.Index.Numbers
import Galerkin.Proofs.Index.Search
import Galerkin.Proofs.Index.Table
import Galerkin.Proofs.Index.Walks
import Galerkin.Proofs.Index.Words
import Galerkin.Proofs.Kernel.Checked
import Galerkin.Proofs.Kernel.Consistency
import Galerkin.Proofs.Kernel.Data
import Galerkin.Proofs.Kernel.Entries
import Galerkin.Proofs.Kernel.GeometryFields
import Galerkin.Proofs.Kernel.Loops
import Galerkin.Proofs.Kernel.Nodes
import Galerkin.Proofs.Kernel.Precomputed
import Galerkin.Proofs.Kernel.Preparation
import Galerkin.Proofs.Kernel.Prepared
import Galerkin.Proofs.Kernel.Ranges
import Galerkin.Proofs.Kernel.Rejections
import Galerkin.Proofs.Kernel.RowSums
import Galerkin.Proofs.Kernel.SeparateMeshes
import Galerkin.Proofs.Kernel.Sweeps
import Galerkin.Proofs.Kernel.Symmetry
import Galerkin.Proofs.Kernel.Tables
import Galerkin.Proofs.Kernel.Updates
import Galerkin.Proofs.Quadrature.Composite
import Galerkin.Proofs.Quadrature.Exactness
import Galerkin.Proofs.Quadrature.Legendre
import Galerkin.Proofs.Sparsity.Candidates
import Galerkin.Proofs.Sparsity.Mirrors
import Galerkin.Proofs.Sparsity.Transpose
import Galerkin.Proofs.Sparsity.Triplets
import Galerkin.Proofs.Steps
import Galerkin.Proofs.Tape.Building
import Galerkin.Proofs.Tape.Calls
import Galerkin.Proofs.Tape.Finishing
import Galerkin.Proofs.Tape.Reading
import Galerkin.Proofs.Tape.Reduced
import Galerkin.Proofs.Tape.Sweep
import Galerkin.Quadrature.Composite
import Galerkin.Quadrature.Gauss
import Galerkin.Scalar
import Galerkin.Sparsity.Banded
import Galerkin.Sparsity.Candidates
import Galerkin.Sparsity.Csr
import Galerkin.Tape.Builder
import Galerkin.Tape.Program
import Galerkin.Text.Decimal
import Galerkin.Text.Scalar
import Galerkin.Text.Terminated
