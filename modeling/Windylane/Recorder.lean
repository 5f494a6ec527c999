import Windylane.Domain
import Windylane.Lib.Steps

/-! The buffered recorder of metric events, after `internal/metrics/recorder.go`: any number of calls of `RecordMetric`
    and `Close`, and the goroutine `run` that hands batches to the writer. An event is any value here. -/

namespace Windylane.Recorder

variable {ε : Type}

structure Config where
  capacity : Nat
  batchSize : Nat

/-- Where a call of `RecordMetric` is: it loads `closed`, and then it sends or drops the event. -/
inductive RecordPhase where
  | entered | checked | refused | sent | dropped
deriving DecidableEq

structure RecordCall (ε : Type) where
  event : ε
  phase : RecordPhase
deriving DecidableEq

/-- Where a call of `Close` is: it enters `once.Do`, and then it waits for `done` or its context. -/
inductive ClosePhase where
  | entered | waiting | returned | expired
deriving DecidableEq

/-- `once`: the first call stores `closed` and closes `stop`, and the others wait for it. -/
inductive Once where
  | fresh | stored (call : Nat) | done
deriving DecidableEq

/-- Where `run` is. `flushing` hands the batch to the writer and then goes on; `draining` is the loop after `stop`. -/
inductive RunPhase where
  | looping | draining | flushing (andThen : RunPhase) | returned
deriving DecidableEq

structure State (ε : Type) where
  records : List (RecordCall ε)
  closes : List ClosePhase
  once : Once
  closed : Bool
  dropped : Nat
  events : List ε
  phase : RunPhase
  batch : List ε
  written : List (List ε)

def init : State ε where
  records := []
  closes := []
  once := .fresh
  closed := false
  dropped := 0
  events := []
  phase := .looping
  batch := []
  written := []

inductive Step (ε : Type) where
  | record (event : ε)
  | check (call : Nat)
  | send (call : Nat)
  | close
  | store (call : Nat)
  | stop (call : Nat)
  | enter (call : Nat)
  | finish (call : Nat)
  | expire (call : Nat)
  | receive
  | tick
  | stopped
  | drained
  | write
deriving DecidableEq

def State.setRecord (s : State ε) (i : Nat) (call : RecordCall ε) : State ε := { s with records := s.records.set i call }

def State.setClose (s : State ε) (i : Nat) (phase : ClosePhase) : State ε := { s with closes := s.closes.set i phase }

/-- `flush` writes nothing when the batch is empty. -/
def State.flush (s : State ε) (andThen : RunPhase) : State ε :=
  { s with phase := if s.batch.isEmpty then andThen else .flushing andThen }

/-- `batch = append(batch, event)`, and `flush` when the batch is full. -/
def State.collect (config : Config) (s : State ε) (event : ε) (rest : List ε) : State ε :=
  let s' := { s with events := rest, batch := s.batch ++ [event] }
  if config.batchSize ≤ s'.batch.length then s'.flush s.phase else s'

/-- One step; `none` when it cannot be taken. -/
def next (config : Config) (s : State ε) : Step ε → Option (State ε)
  | .record event => some { s with records := s.records ++ [⟨event, .entered⟩] }
  | .check i =>
    match s.records[i]? with
    | some ⟨event, .entered⟩ => some (s.setRecord i ⟨event, if s.closed then .refused else .checked⟩)
    | _ => none
  | .send i =>
    match s.records[i]? with
    | some ⟨event, .checked⟩ =>
      if s.events.length < config.capacity then
        some { s.setRecord i ⟨event, .sent⟩ with events := s.events ++ [event] }
      else some { s.setRecord i ⟨event, .dropped⟩ with dropped := s.dropped + 1 }
    | _ => none
  | .close => some { s with closes := s.closes ++ [.entered] }
  | .store i =>
    if s.closes[i]? = some .entered ∧ s.once = .fresh then some { s with closed := true, once := .stored i } else none
  | .stop i =>
    if s.closes[i]? = some .entered ∧ s.once = .stored i then some { s.setClose i .waiting with once := .done } else none
  | .enter i => if s.closes[i]? = some .entered ∧ s.once = .done then some (s.setClose i .waiting) else none
  | .finish i =>
    if s.closes[i]? = some .waiting ∧ s.phase = .returned then some (s.setClose i .returned) else none
  | .expire i => if s.closes[i]? = some .waiting then some (s.setClose i .expired) else none
  | .receive =>
    match s.phase, s.events with
    | .looping, event :: rest | .draining, event :: rest => some (s.collect config event rest)
    | _, _ => none
  | .tick => if s.phase = .looping then some (s.flush .looping) else none
  | .stopped => if s.phase = .looping ∧ s.once = .done then some { s with phase := .draining } else none
  | .drained => if s.phase = .draining ∧ s.events = [] then some (s.flush .returned) else none
  | .write =>
    match s.phase with
    | .flushing andThen => some { s with written := s.written ++ [s.batch], batch := [], phase := andThen }
    | _ => none

end Windylane.Recorder
