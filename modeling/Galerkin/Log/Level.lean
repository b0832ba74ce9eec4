/-! # Severity of log messages

* **`LogLevel`** — a severity, ordered by its number; the last named one switches logging off;
* **`LogLevel.name`** — the word that a message shows;
* **`LogLevel.parse?`** — the level a word stands for, in capitals or not. -/

namespace Galerkin

/-- A severity. The named levels have the numbers zero to five. -/
structure LogLevel where
  number : Int
  deriving Repr, DecidableEq, Inhabited

namespace LogLevel

/-- Details for developers. These messages are never written. -/
def debug : LogLevel := ⟨0⟩

/-- Progress. -/
def info : LogLevel := ⟨1⟩

/-- Something was ignored or replaced. -/
def warning : LogLevel := ⟨2⟩

/-- An operation failed. -/
def error : LogLevel := ⟨3⟩

/-- The program cannot go on. -/
def critical : LogLevel := ⟨4⟩

/-- No message has this level; as a threshold it admits none. -/
def off : LogLevel := ⟨5⟩

/-- The word for a level in a message. -/
def name (l : LogLevel) : String :=
  if l = debug then "DEBUG"
  else if l = info then "INFO"
  else if l = warning then "WARN"
  else if l = error then "ERROR"
  else if l = critical then "CRIT"
  else "UNKNOWN"

/-- The words that are understood, in capitals, with their levels. -/
def words : List (String × LogLevel) :=
  [("DEBUG", debug), ("INFO", info), ("WARNING", warning), ("WARN", warning), ("ERROR", error),
    ("CRITICAL", critical), ("CRIT", critical), ("OFF", off)]

/-- **The level a word stands for.** Only the letters `a` to `z` have capitals here. -/
def parse? (text : String) : Option LogLevel :=
  (words.find? fun (word, _) => word == text.map Char.toUpper).map Prod.snd

end LogLevel

end Galerkin
