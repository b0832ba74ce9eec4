import Galerkin.Error
import Galerkin.Text.Terminated

/-! # Failure reports

A report is a failure as a caller sees it: a status, a message, the place it was raised at, and the
contexts it passed through on its way out. `Report.text` is the full text; each added context stands
in front of the message. -/

namespace Galerkin

/-- A failure with the place it was raised at. An empty file means that the place is unknown. -/
structure Report where
  status : Status
  message : String
  file : String := ""
  line : Int := 0
  function : String := ""
  deriving Repr, DecidableEq

namespace Report

/-- The report of a cause. -/
def ofError (e : Error) : Report := { status := e.status, message := e.message }

/-- A report about an index out of its range. -/
def ofIndex (what : String) (index bound : UInt64) : Report :=
  { status := .indexOutOfRange, message := Error.indexText what index bound }

/-- A report about something this library does not offer. -/
def ofMissingFeature (feature : String) : Report :=
  { status := .notImplemented, message := "Feature not implemented: " ++ feature }

/-- Puts a place on a report. Its names are terminated texts. -/
def located (r : Report) (file : String) (line : Int) (function : String) : Report :=
  { r with file := terminated file, line, function := terminated function }

/-- **Context goes in front:** what was running when the failure passed through. -/
def addContext (r : Report) (context : String) : Report :=
  { r with message := context ++ "\n  -> " ++ r.message }

/-- The line that tells the place, if it is known. -/
def locationText (r : Report) : String :=
  if r.file.isEmpty then ""
  else
    "  Location: " ++ r.file ++ ":" ++ toString r.line ++
      (if r.function.isEmpty then "" else " in " ++ r.function ++ "()") ++ "\n"

/-- The full text of a report, a terminated text. -/
def text (r : Report) : String :=
  terminated ("[igak] " ++ r.status.describe ++ "\n" ++ r.locationText ++ "  Message: " ++
    r.message ++ "\n")

/-- Context changes neither status nor place. -/
theorem status_addContext (r : Report) (c : String) : (r.addContext c).status = r.status := rfl

end Report

end Galerkin
