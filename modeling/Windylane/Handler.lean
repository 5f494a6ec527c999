import Windylane.Lib.History
import Windylane.Service.Engine

/-! `runHandler` of `internal/engine/engine.go` with its goroutines. `Execute` starts the handler in a goroutine of its
    own and waits for its answer or for the end of the context; whichever it takes, the handler may go on beside the rest
    of `Execute`. The deferred `recover` is in the goroutine of `Execute`: a panic of the handler is not recovered in its
    own goroutine and ends the process. -/

namespace Windylane.Handler

open Conc

/-- What a job handler does. One that outlives its deadline takes its step later, or never. -/
inductive Behaviour where
  | returns (err : Option String)
  | panics (value : String)
  | hangs

/-- The goroutine of the handler. -/
inductive Child where
  | unstarted | running | ended
deriving DecidableEq

structure State where
  /-- What `Execute` has left to do. -/
  prog : Script EngineResult
  /-- What `Execute` called, the first call first. -/
  past : List machine.Exchange
  child : Child
  /-- The channel `done`, with room for one answer. -/
  done : Option (Option String)
  /-- `ctx.Err()`, once the context is done. -/
  ctxErr : Option String
  alive : Bool

def start (h : Host) (task : Task) : State := ⟨execute h task, [], .unstarted, none, none, true⟩

/-- `Execute` goes on with the answer `r` to its call `o`. -/
def State.answered (s : State) (o : Op) (k : machine.Answer o → Script EngineResult) (r : machine.Answer o) : State :=
  { s with prog := k r, past := s.past ++ [⟨o, r⟩] }

inductive Step (b : Behaviour) : State → State → Prop
  /-- `go func`. -/
  | spawn {s : State} {payload : RawMessage} {k : machine.Answer (.sys (.runHandler payload)) → Script EngineResult}
      (alive : s.alive = true) (here : s.prog = .call (.sys (.runHandler payload)) k) (new : s.child = .unstarted) :
      Step b s { s with child := .running }
  | send {s : State} {err : Option String} (alive : s.alive = true) (returns : b = .returns err)
      (running : s.child = .running) : Step b s { s with child := .ended, done := some err }
  | panic {s : State} {value : String} (alive : s.alive = true) (panics : b = .panics value)
      (running : s.child = .running) : Step b s { s with child := .ended, alive := false }
  /-- The deadline passes, or the caller's context ends. -/
  | expire {s : State} (e : String) (alive : s.alive = true) (live : s.ctxErr = none) :
      Step b s { s with ctxErr := some e }
  /-- `case handlerErr := <-done`. -/
  | receive {s : State} {payload : RawMessage} {k : machine.Answer (.sys (.runHandler payload)) → Script EngineResult}
      {err : Option String} (alive : s.alive = true) (here : s.prog = .call (.sys (.runHandler payload)) k)
      (sent : s.done = some err) : Step b s { s.answered (.sys (.runHandler payload)) k (.ok err) with done := none }
  /-- `case <-ctx.Done()`. -/
  | timeout {s : State} {payload : RawMessage} {k : machine.Answer (.sys (.runHandler payload)) → Script EngineResult}
      {e : String} (alive : s.alive = true) (here : s.prog = .call (.sys (.runHandler payload)) k)
      (started : s.child ≠ .unstarted) (expired : s.ctxErr = some e) :
      Step b s (s.answered (.sys (.runHandler payload)) k (.ok (some ("task execution timeout: " ++ e))))
  /-- Another call of `Execute`, answered in whatever state the stores are in. -/
  | call {s : State} {o : Op} {k : machine.Answer o → Script EngineResult} (env : Env) (w : World) (alive : s.alive = true)
      (here : s.prog = .call o k) (other : ∀ payload, o ≠ .sys (.runHandler payload)) :
      Step b s (s.answered o k (machine.exec env o w).1)

/-- The calls that move the task out of `processing`. -/
def transition : Op → Bool
  | .task (.complete _ _ _) | .task (.fail _ _ _ _ _ _) | .task (.moveToDeadLetter _ _ _ _) => true
  | _ => false

/-- How many transitions `Execute` attempted. -/
def State.transitions (s : State) : Nat := s.past.countP fun c => transition c.1

end Windylane.Handler
