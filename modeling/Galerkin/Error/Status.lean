/-! # Status of a failure

Every failure has a status from a short list, whatever its cause. Each status has a number, a byte
(`Status.code`), and a name for people (`Status.describe`). Numbers without a listed status are kept,
but have no name of their own. -/

namespace Galerkin

/-- The kinds of failure, and the absence of one. -/
inductive Status where
  | success
  | invalidArgument
  | shapeMismatch
  | invalidDimension
  | indexOutOfRange
  | assemblyError
  | notImplemented
  | unknown
  | unlisted (code : UInt8)
  deriving Repr, DecidableEq, Inhabited

namespace Status

/-- The number of a status, a byte. -/
def code : Status → Nat
  | success => 0
  | invalidArgument => 1
  | shapeMismatch => 2
  | invalidDimension => 3
  | indexOutOfRange => 4
  | assemblyError => 5
  | notImplemented => 6
  | unknown => 255
  | unlisted code => code.toNat

/-- The listed statuses in the order of their numbers. -/
def all : List Status :=
  [success, invalidArgument, shapeMismatch, invalidDimension, indexOutOfRange, assemblyError,
    notImplemented, unknown]

/-- The status with a given number. -/
def ofCode (n : UInt8) : Status :=
  (all.find? (·.code == n.toNat)).getD (unlisted n)

/-- The name of a status in a report. -/
def describe : Status → String
  | success => "Success"
  | invalidArgument => "Invalid argument"
  | shapeMismatch => "Shape mismatch"
  | invalidDimension => "Invalid dimension"
  | indexOutOfRange => "Index out of range"
  | assemblyError => "Assembly error"
  | notImplemented => "Not implemented"
  | unknown => "Unknown error"
  | unlisted _ => "Unknown error"

/-- The name of the kind of failure that a status stands for. -/
def kind : Status → String
  | success => "Success"
  | invalidArgument => "InvalidArgument"
  | shapeMismatch => "ShapeMismatch"
  | invalidDimension => "InvalidDimension"
  | indexOutOfRange => "IndexOutOfRange"
  | assemblyError => "AssemblyError"
  | notImplemented => "NotImplemented"
  | _ => "Unknown"

/-- The first listed status of a kind. -/
def ofKind? (name : String) : Option Status := all.find? (·.kind == name)

/-- A listed status is determined by its number. -/
theorem ofCode_code {s : Status} (h : s ∈ all) : ofCode (UInt8.ofNat s.code) = s := by
  simp only [all, List.mem_cons, List.not_mem_nil, or_false] at h
  rcases h with rfl | rfl | rfl | rfl | rfl | rfl | rfl | rfl <;> rfl

end Status

end Galerkin
