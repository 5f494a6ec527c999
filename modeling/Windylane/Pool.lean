import Mathlib.Logic.Function.Basic
import Windylane.Domain
import Windylane.Lib.Steps

/-! The goroutines of a worker pool and its `inFlight` map, after `internal/worker/pool.go`: `process`, which registers
    its cancel function under the id of the task, `heartbeatLoop`, which looks it up there, and `gracefulDrain`. What
    storage answers to a claim or a heartbeat is left open. -/

namespace Windylane.Pool

/-- Where `process` is. -/
inductive Phase where
  | dispatched | claiming | claimed | executing | leaving | deleted | returned
deriving DecidableEq

/-- Where `heartbeatLoop` is; `cancelling` holds the goroutine whose cancel function it loaded. It is `lapsed` when it
    returned after a heartbeat failed, and `stopped` when its context was done. -/
inductive Heartbeat where
  | idle | waiting | lost | cancelling (goroutine : Nat) | lapsed | stopped
deriving DecidableEq

/-- A goroutine that processes a message, with its heartbeat loop. -/
structure Goroutine where
  task : UUID
  phase : Phase
  heartbeat : Heartbeat
deriving DecidableEq

/-- What a move does beside moving on. -/
inductive Effect where
  | none
  | store
  | delete
  | cancel (goroutine : Nat)
deriving DecidableEq

inductive ProcessMove where
  | store
  | claim (ok : Bool)
  | watch
  | finish
  | delete
  | release
deriving DecidableEq

inductive HeartbeatMove where
  | beat (ok : Bool)
  | done
  | load
  | cancel
deriving DecidableEq

/-- The statements of `process`. The deferred calls stop the heartbeat loop, delete the entry and cancel the context. -/
def Goroutine.process (g : Nat) (p : Goroutine) (m : ProcessMove) : Option (Goroutine × Effect) :=
  match p.phase, m with
  | .dispatched, .store => some ({ p with phase := .claiming }, .store)
  | .claiming, .claim true => some ({ p with phase := .claimed }, .none)
  | .claiming, .claim false => some ({ p with phase := .leaving }, .none)
  | .claimed, .watch => some ({ p with phase := .executing, heartbeat := .waiting }, .none)
  | .executing, .finish => some ({ p with phase := .leaving }, .none)
  | .leaving, .delete => some ({ p with phase := .deleted }, .delete)
  | .deleted, .release => some ({ p with phase := .returned }, .cancel g)
  | _, _ => none

/-- The context of the heartbeat loop is done when that of the task is, or when `process` leaves. -/
def Goroutine.heartbeatDone (p : Goroutine) (cancelled : Bool) : Bool := cancelled || p.phase ≠ .executing

/-- The statements of `heartbeatLoop`; `entry` is what `inFlight` has for the task. -/
def Goroutine.beats (entry : Option Nat) (cancelled : Bool) (p : Goroutine) (m : HeartbeatMove) :
    Option (Goroutine × Effect) :=
  match p.heartbeat, m with
  | .waiting, .beat true => some (p, .none)
  | .waiting, .beat false => some ({ p with heartbeat := .lost }, .none)
  | .waiting, .done => if p.heartbeatDone cancelled then some ({ p with heartbeat := .stopped }, .none) else none
  | .lost, .load =>
    match entry with
    | some c => some ({ p with heartbeat := .cancelling c }, .none)
    | none => some ({ p with heartbeat := .lapsed }, .none)
  | .cancelling c, .cancel => some ({ p with heartbeat := .lapsed }, .cancel c)
  | _, _ => none

/-- Where `gracefulDrain` is. While it ranges over `inFlight`, `due` are the keys that it has to visit. -/
inductive Drain where
  | running | waiting | ranging (due visited : List UUID) | forced | closed
deriving DecidableEq

structure State where
  goroutines : List Goroutine
  inFlight : UUID → Option Nat
  cancelled : Nat → Bool
  drain : Drain

def init : State := ⟨[], fun _ => none, fun _ => false, .running⟩

inductive Step where
  | dispatch (task : UUID)
  | process (goroutine : Nat) (move : ProcessMove)
  | heartbeat (goroutine : Nat) (move : HeartbeatMove)
  | stop
  | force
  | visit (task : UUID)
  | ranged
  | drained
deriving DecidableEq

/-- A key that was deleted need not be visited. -/
def Drain.forget (task : UUID) : Drain → Drain
  | .ranging due visited => .ranging (due.filter (· ≠ task)) visited
  | drain => drain

def State.cancel (s : State) (c : Nat) : State := { s with cancelled := Function.update s.cancelled c true }

def State.apply (s : State) (g : Nat) (task : UUID) : Effect → State
  | .none => s
  | .store => { s with inFlight := Function.update s.inFlight task (some g) }
  | .delete => { s with inFlight := Function.update s.inFlight task none, drain := s.drain.forget task }
  | .cancel c => s.cancel c

/-- A goroutine moves on. -/
def State.moved (s : State) (g : Nat) : Goroutine × Effect → State
  | (p, e) => { s with goroutines := s.goroutines.set g p }.apply g p.task e

/-- The keys of `inFlight`. -/
def State.keys (s : State) : List UUID := (s.goroutines.map (·.task)).filter fun id => (s.inFlight id).isSome

/-- The goroutines that hold a slot of `sem`. -/
def State.active (s : State) : Nat := s.goroutines.countP (·.phase ≠ .returned)

/-- One step of the pool; `none` when it cannot be taken. -/
def next (concurrency : Nat) (s : State) : Step → Option State
  | .dispatch task =>
    if s.drain = .running ∧ s.active < concurrency then
      some { s with goroutines := s.goroutines ++ [⟨task, .dispatched, .idle⟩] }
    else none
  | .process g m => (s.goroutines[g]?).bind fun p => (p.process g m).map (s.moved g)
  | .heartbeat g m =>
    (s.goroutines[g]?).bind fun p => (p.beats (s.inFlight p.task) (s.cancelled g) m).map (s.moved g)
  | .stop => if s.drain = .running then some { s with drain := .waiting } else none
  | .force => if s.drain = .waiting then some { s with drain := .ranging s.keys [] } else none
  | .visit task =>
    match s.drain, s.inFlight task with
    | .ranging due visited, some c =>
      if task ∈ visited then none
      else some { s.cancel c with drain := .ranging (due.filter (· ≠ task)) (task :: visited) }
    | _, _ => none
  | .ranged =>
    match s.drain with
    | .ranging [] _ => some { s with drain := .forced }
    | _ => none
  | .drained =>
    if (s.drain = .waiting ∨ s.drain = .forced) ∧ s.active = 0 then some { s with drain := .closed } else none

end Windylane.Pool
