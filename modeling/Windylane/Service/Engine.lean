import Windylane.Service.Tasks

/-! The engine and the worker pool, after `internal/engine/engine.go` and `internal/worker/pool.go`. A turn of
    a periodic loop is one program, and so is the way of one message from `Dequeue` to the end of `process`. -/

namespace Windylane

open Script

/-- The retry backoff as `NextBackoff` computes it; the source computes with floating-point numbers. -/
def RetryPolicy.nextBackoff (r : RetryPolicy) : Nat → Rat → Duration
  | 0, backoff => backoff.num.tdiv backoff.den
  | attempt + 1, backoff =>
    let backoff := backoff * r.backoffMultiplier
    if (r.maxBackoff : Rat) < backoff then r.maxBackoff else r.nextBackoff attempt backoff

/-- `Engine.nextBackoff`. -/
def nextBackoff (h : Host) (task : Task) : Duration :=
  match task.backoffStrategy with
  | "fixed" => h.retryPolicy.initialBackoff
  | "linear" =>
    let backoff := task.attempts * h.retryPolicy.initialBackoff
    if h.retryPolicy.maxBackoff < backoff then h.retryPolicy.maxBackoff else backoff
  | _ => h.retryPolicy.nextBackoff task.attempts.toNat h.retryPolicy.initialBackoff

/-- `recordTaskMetric`; a duration is recorded for finished attempts. -/
def taskMetric (task : Task) (eventType : MetricEventType) (now : Time) (errorCode : String) : NewMetricEventInput where
  organizationID := task.orgID
  source := .queueFlow
  eventType := eventType
  resourceType := .task
  resourceID := task.id
  queue := task.queue
  status := task.status.text
  durationMS :=
    if eventType = .taskSucceeded ∨ eventType = .taskFailed then some (max 0 ((now - task.updatedAt).tdiv 1000))
    else none
  occurredAt := now
  attempt := some task.attempts
  maxAttempts := some task.maxAttempts
  errorCode := errorCode
  transitionKey := toString task.attempts ++ ":" ++ eventType.text

inductive TaskOutcome where
  | completed | retried | deadLetter
deriving DecidableEq

/-- `engine.Result`. -/
structure EngineResult where
  taskID : UUID
  outcome : TaskOutcome
  err : Option Err
deriving DecidableEq

/-- `handleFailure`: the dead letter when the retry budget is spent, and otherwise a retry after a backoff. -/
def handleFailure (h : Host) (task : Task) (execErr : String) (now : Time) : Script EngineResult :=
  let task := { task with lastError := execErr }
  if task.isExhausted then do
    match ← tryTask (.moveToDeadLetter task.orgID task.id execErr now) with
    | .error e => pure ⟨task.id, .deadLetter, some e⟩
    | .ok _ =>
      let task := { task with status := .deadLetter }
      record (taskMetric task .taskFailed now "handler_error")
      record (taskMetric task .taskDeadLettered now "handler_error")
      let task := { task with updatedAt := now }
      let _ ← publishTaskEvent h .taskDeadLetter task
      let _ ← tryBroker (.moveToDeadLetter task.orgID task.queue task.id)
      pure ⟨task.id, .deadLetter, some (.other execErr)⟩
  else do
    let backoff := nextBackoff h task
    let visibleAt := now + backoff
    match ← tryTask (.fail task.orgID task.id execErr .pending visibleAt now) with
    | .error e => pure ⟨task.id, .retried, some e⟩
    | .ok _ =>
      let task := { task with status := .pending, visibleAt := visibleAt }
      record (taskMetric task .taskFailed now "handler_error")
      record (taskMetric task .taskRetryScheduled now "handler_error")
      let task := { task with updatedAt := now }
      let _ ← publishTaskEvent h .taskFailed task
      match ← tryBroker (.nack task.orgID task.queue task.id backoff) with
      | .error _ => pure ⟨task.id, .retried, some (.other execErr)⟩
      | .ok _ =>
        let _ ← tryTask (.markDispatched task.orgID task.id now)
        pure ⟨task.id, .retried, some (.other execErr)⟩

/-- `Execute`: run the handler, then complete the task or handle its failure. -/
def execute (h : Host) (task : Task) : Script EngineResult := do
  let failed ← sys (.runHandler task.payload)
  let now ← now
  match failed with
  | some execErr => handleFailure h task execErr now
  | none =>
    match ← tryTask (.complete task.orgID task.id now) with
    | .error e => pure ⟨task.id, .completed, some e⟩
    | .ok _ =>
      let task := { task with status := .completed, completedAt := some now }
      record (taskMetric task .taskSucceeded now "")
      let task := { task with updatedAt := now }
      let _ ← publishTaskEvent h .taskCompleted task
      let _ ← tryBroker (.ack task.orgID task.queue task.id)
      pure ⟨task.id, .completed, none⟩

/-- `PublishProcessingEvent`. -/
def publishProcessingEvent (h : Host) (task : Task) : Script Unit := do
  let now ← now
  record (taskMetric task .taskStarted now "")
  let _ ← publishTaskEvent h .taskProcessing task

/-- `Pool.process`: a message whose task cannot be claimed is acknowledged and dropped. -/
def process (h : Host) (orgID : UUID) (queue workerID : String) (taskID : UUID) : Script Unit := do
  let now ← now
  match ← tryTask (.claimForProcessing orgID taskID workerID now) with
  | .error _ =>
    let _ ← tryBroker (.ack orgID queue taskID)
  | .ok task =>
    publishProcessingEvent h task
    let _ ← execute h task

/-- One turn of `Pool.Run`: dequeue a message and process it. -/
def dispatch (h : Host) (orgID : UUID) (queue workerID : String) : Script Unit := do
  match ← tryBroker (.dequeue orgID queue) with
  | .error _ => pure ()
  | .ok taskID => process h orgID queue workerID taskID

/-- One tick of `heartbeatLoop`. -/
def heartbeatTick (orgID taskID : UUID) (workerID : String) (visibilityTimeout : Duration) : Script Unit := do
  let now ← now
  let _ ← tryTask (.heartbeat orgID taskID workerID visibilityTimeout now)

/-- Put tasks back on the broker, and mark those that got there. -/
def redispatch (orgID : UUID) : List Task → Script Unit
  | [] => pure ()
  | task :: rest => do
    match ← tryBroker (.enqueue task.orgID task.queue task.id task.priority) with
    | .error _ => redispatch orgID rest
    | .ok _ =>
      let now ← now
      let _ ← tryTask (.markDispatched orgID task.id now)
      redispatch orgID rest

/-- One tick of `ReclaimLoop`. The rows it reclaims are of its organisation. -/
def reclaimTick (orgID : UUID) (queue : String) : Script Unit := do
  let now ← now
  match ← tryTask (.reclaimExpired orgID queue now 100) with
  | .error _ => pure ()
  | .ok reclaimed => redispatch orgID reclaimed

/-- One tick of `DelayedPromotionLoop`. -/
def promotionTick (orgID : UUID) (queue : String) : Script Unit := do
  let _ ← tryBroker (.promoteDueDelayed orgID queue)

/-- One tick of `ReconciliationLoop`. -/
def reconciliationTick (orgID : UUID) (queue : String) : Script Unit := do
  match ← tryTask (.listUndispatchedPending orgID queue 100) with
  | .error _ => pure ()
  | .ok tasks => redispatch orgID tasks

end Windylane
