import Galerkin.Log.Level
import Galerkin.Text.Decimal
import Galerkin.Text.Terminated

/-! # Logging

A `Logger` holds settings only. Logging a message yields the *effects* to perform, in order: a line on
one of the two standard streams, a line for the log file, one call of each handler.

* **`LogRecord`** — a message with its level and place;
* **`Logger`** — threshold, outputs and handlers;
* **`Logger.log`** — the effects of a message;
* **`Logger.openFile`** — redirects to another file;
* **`Logger.ofEnvironment`** — the settings that environment variables ask for. -/

namespace Galerkin

/-- A message with its level and the place it comes from. -/
structure LogRecord where
  level : LogLevel
  message : String
  file : String := ""
  line : Int := 0
  function : String := ""
  deriving Repr, DecidableEq

/-- Puts a place on a record. Its names are terminated texts. -/
def LogRecord.located (r : LogRecord) (file : String) (line : Int) (function : String) :
    LogRecord :=
  { r with file := terminated file, line, function := terminated function }

/-- What a logger has to be done for it. -/
inductive LogEffect where
  | standardOutput (text : String)
  | standardError (text : String)
  | append (file text : String)
  | handle (handler : String) (record : LogRecord)
  deriving Repr, DecidableEq

/-- The settings of a logger. Handlers are known by name; `file` is the log file that is open. -/
structure Logger where
  minLevel : LogLevel := .info
  console : Bool := true
  stamps : Bool := true
  file : Option String := none
  handlers : List String := []
  deriving Repr, DecidableEq, Inhabited

namespace LogEffect

/-- What effects write to standard output. -/
def outputText (effects : List LogEffect) : String :=
  String.join (effects.filterMap fun
    | standardOutput text => some text
    | _ => none)

/-- What effects write to standard error. -/
def errorText (effects : List LogEffect) : String :=
  String.join (effects.filterMap fun
    | standardError text => some text
    | _ => none)

/-- What effects append to a file. -/
def fileText (name : String) (effects : List LogEffect) : String :=
  String.join (effects.filterMap fun
    | append file text => if file == name then some text else none
    | _ => none)

/-- The calls of handlers among effects. -/
def calls (effects : List LogEffect) : List (String × LogRecord) :=
  effects.filterMap fun
    | handle handler record => some (handler, record)
    | _ => none

end LogEffect

namespace Logger

/-- **Whether a message of a level is written:** at least the threshold, and neither the level for
details nor the one that means silence. -/
def enabled (l : Logger) (level : LogLevel) : Bool :=
  level != .debug && level != .off && decide (l.minLevel.number ≤ level.number)

/-- The line of a message; `stamp` is the time of day. -/
def format (l : Logger) (stamp : String) (r : LogRecord) : String :=
  (if l.stamps then "[" ++ stamp ++ "] " else "") ++ "[" ++ r.level.name ++ "] " ++ r.message ++ "\n"

/-- The stream for a level: warnings and worse go to standard error. -/
def consoleEffect (level : LogLevel) (text : String) : LogEffect :=
  if LogLevel.warning.number ≤ level.number then .standardError text else .standardOutput text

/-- **The effects of a message,** none if its level is not enabled. -/
def log (l : Logger) (stamp : String) (r : LogRecord) : List LogEffect :=
  if l.enabled r.level then
    let text := l.format stamp r
    (if l.console then [consoleEffect r.level text] else []) ++
      (l.file.toList.map fun file => .append file text) ++
      l.handlers.map fun handler => .handle handler r
  else []

/-- The text of a message with the seconds that passed. -/
def timedText (message : String) (seconds : Float) : String :=
  message ++ " (elapsed: " ++ fixedText 3 seconds ++ "s)"

/-- The effects of a message with the seconds that passed. -/
def logTimed (l : Logger) (stamp : String) (level : LogLevel) (message : String)
    (seconds : Float) : List LogEffect :=
  l.log stamp { level, message := timedText message seconds }

/-- The effects of a timed scope: one message when it opens, one when it closes. -/
def logScope (l : Logger) (stamp : String) (level : LogLevel) (name : String)
    (seconds : Float) : List LogEffect :=
  l.log stamp { level, message := "Starting: " ++ name } ++
    l.logTimed stamp level ("Completed: " ++ name) seconds

/-- **Redirects to a file.** The file that was open is closed; the empty name opens none, and a file
that cannot be opened is reported on standard error. -/
def openFile (l : Logger) (canOpen : String → Bool) (name : String) : Logger × List LogEffect :=
  if name.isEmpty then ({ l with file := none }, [])
  else if canOpen name then ({ l with file := some name }, [])
  else ({ l with file := none }, [.standardError ("Failed to open log file: " ++ name ++ "\n")])

/-- Whether the text of a switch means on. -/
def switchText (text : String) : Bool :=
  let lower := text.map Char.toLower
  lower != "false" && lower != "0" && lower != "off"

/-- **The settings that environment variables ask for.** A level that is not understood is ignored.
The values of the variables are terminated texts. -/
def ofEnvironment (valueOf : String → Option String) (canOpen : String → Bool) :
    Logger × List LogEffect :=
  let lookup (name : String) := (valueOf name).map terminated
  let start : Logger := {}
  let levelled := match (lookup "IGAK_LOG_LEVEL").bind LogLevel.parse? with
    | some level => { start with minLevel := level }
    | none => start
  let (opened, effects) := match lookup "IGAK_LOG_FILE" with
    | some name => levelled.openFile canOpen name
    | none => (levelled, [])
  ({ opened with
      console := ((lookup "IGAK_LOG_CONSOLE").map switchText).getD true
      stamps := ((lookup "IGAK_LOG_SHOW_TIME").map switchText).getD true },
    effects)

end Logger

end Galerkin
