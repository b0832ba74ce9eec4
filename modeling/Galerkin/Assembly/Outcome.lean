import Galerkin.Error
import Galerkin.Log.Level

/-! # Outcomes of assembly operations

Assembly operations report what they do. An `Outcome` is a result or the cause of a failure, together
with the events on the way, which a failure does not erase.

* **`Event`** — what is reported, with its level and its wording;
* **`Outcome`** — events and result, a monad. -/

namespace Galerkin

/-- The basis functions an assembler is set up for. -/
inductive SpaceCounts where
  | shared (functions : Nat)
  | separate (test trial : Nat)
  deriving Repr, DecidableEq

/-- The text of the basis function counts. -/
def SpaceCounts.text : SpaceCounts → String
  | shared functions => s!"{functions} basis functions"
  | separate test trial => s!"{test} test x {trial} trial functions"

/-- What an assembly operation reports. -/
inductive Event where
  | threadCountIgnored (text : String)
  | chunksFailed (failed total : Nat)
  | workerCloned
  | assemblerReady (dim : Nat) (name : String) (spaces : SpaceCounts) (components nodes : Nat)
  | sparseAssembled (name : String) (rows cols nonzeros : Nat) (workers : Int) (symmetric : Bool)
  | bandedAssembled (name : String) (positions : Nat) (workers : Int) (symmetric : Bool)
  deriving Repr, DecidableEq

namespace Event

/-- The level of an event. -/
def level : Event → LogLevel
  | threadCountIgnored _ => .warning
  | chunksFailed _ _ => .error
  | workerCloned => .debug
  | assemblerReady _ _ _ _ _ => .info
  | sparseAssembled _ _ _ _ _ _ => .info
  | bandedAssembled _ _ _ _ => .info

/-- The end of the message of an assembly run. -/
def runText (workers : Int) (symmetric : Bool) (elapsed : String) : String :=
  s!"{workers} workers, " ++ (if symmetric then "symmetric, " else "") ++ elapsed ++ " s"

/-- The wording of an event; `elapsed` is the time a run took, in seconds. -/
def message (elapsed : String) : Event → String
  | threadCountIgnored text => "Ignoring invalid IGAK_NUM_THREADS='" ++ text ++ "'"
  | chunksFailed failed total =>
    s!"WorkerPool: {failed} of {total} chunks failed, discarding batch results"
  | workerCloned => "Cloned an assembler for a worker"
  | assemblerReady dim name spaces components nodes =>
    s!"FormAssembler<{dim}> '" ++ name ++ "': " ++ spaces.text ++
      s!" x {components} components, {nodes} quadrature nodes, initialized in " ++ elapsed ++ " s"
  | sparseAssembled name rows cols nonzeros workers symmetric =>
    "Assembled sparse matrix '" ++ name ++ s!"': {rows} x {cols}, {nonzeros} nonzeros, " ++
      runText workers symmetric elapsed
  | bandedAssembled name positions workers symmetric =>
    "Assembled banded matrix '" ++ name ++ s!"': {positions} candidate positions, " ++
      runText workers symmetric elapsed

end Event

/-- **A result or a cause of failure, with the events on the way.** -/
structure Outcome (β : Type) where
  events : List Event
  result : Except Error β

namespace Outcome

variable {β γ : Type}

/-- Reports an event. -/
def report (e : Event) : Outcome Unit := ⟨[e], .ok ()⟩

/-- A failure without events. -/
def fail (e : Error) : Outcome β := ⟨[], .error e⟩

/-- Goes on after a success; a failure ends the operation. -/
def andThen (x : Outcome β) (f : β → Outcome γ) : Outcome γ :=
  match x.result with
  | .ok b =>
    let y := f b
    ⟨x.events ++ y.events, y.result⟩
  | .error e => ⟨x.events, .error e⟩

instance : Monad Outcome where
  pure b := ⟨[], .ok b⟩
  bind := andThen

instance : MonadExceptOf Error Outcome where
  throw := fail
  tryCatch x handler :=
    match x.result with
    | .ok _ => x
    | .error e =>
      let y := handler e
      ⟨x.events ++ y.events, y.result⟩

instance : MonadLift (Except Error) Outcome where
  monadLift r := ⟨[], r⟩

@[simp] theorem pure_events (b : β) : (pure b : Outcome β).events = [] := rfl

@[simp] theorem pure_result (b : β) : (pure b : Outcome β).result = .ok b := rfl

theorem bind_eq (x : Outcome β) (f : β → Outcome γ) : x >>= f = x.andThen f := rfl

theorem andThen_ok {x : Outcome β} {b : β} (h : x.result = .ok b) (f : β → Outcome γ) :
    x.andThen f = ⟨x.events ++ (f b).events, (f b).result⟩ := by
  simp [andThen, h]

theorem andThen_error {x : Outcome β} {e : Error} (h : x.result = .error e)
    (f : β → Outcome γ) : x.andThen f = ⟨x.events, .error e⟩ := by
  simp [andThen, h]

end Outcome

end Galerkin
