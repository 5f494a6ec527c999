import Windylane.Json

/-! The domain of the services: identifiers, times, errors, and the rows of the tables, after
    `internal/domain`. A row and the Go value that is scanned from it are one type here; a NULL column is
    `none`, or the empty string where the Go value cannot tell the two apart. -/

namespace Windylane

/-- `uuid.UUID`, sixteen bytes. -/
structure UUID where
  bits : BitVec 128
deriving DecidableEq

namespace UUID

def nil : UUID := ⟨0⟩

instance : LT UUID := ⟨fun a b => a.bits < b.bits⟩
instance (a b : UUID) : Decidable (a < b) := inferInstanceAs (Decidable (a.bits < b.bits))

/-- `count` hexadecimal digits of `n`, the most significant first. -/
def hex (n : Nat) : Nat → List Char
  | 0 => []
  | count + 1 => Nat.digitChar (n / 16 ^ count % 16) :: hex n count

/-- `UUID.String`: 8-4-4-4-12 hexadecimal digits. -/
def text (u : UUID) : String :=
  let n := u.bits.toNat
  String.ofList (hex (n / 2 ^ 96) 8 ++ '-' :: hex (n / 2 ^ 80) 4 ++ '-' :: hex (n / 2 ^ 64) 4 ++
    '-' :: hex (n / 2 ^ 48) 4 ++ '-' :: hex n 12)

end UUID

/-- A clock reading, in microseconds. -/
abbrev Time := Int

/-- A span of time, in microseconds. -/
abbrev Duration := Int

def seconds (n : Int) : Duration := n * 1000000

/-- The longest span that `time.Duration` holds, 2^63 - 1 nanoseconds. -/
def maxDuration : Duration := (2 ^ 63 - 1) / 1000

/-- `t.Sub(u)`, which stays at the longest span when the difference is longer. -/
def Time.sub (t u : Time) : Duration := max (-maxDuration) (min (t - u) maxDuration)

/-- The sentinel errors of `internal/domain/errors.go`, and every other error by its text. -/
inductive Err where
  | taskNotFound
  | duplicateIdempotencyKey
  | taskAlreadyLocked
  | queueEmpty
  | invalidPayload
  | invalidInput
  | idempotencyConflict
  | invalidStateTransition
  | dispatchUnavailable
  | webhookEndpointNotFound
  | webhookDeliveryNotFound
  | workflowNotFound
  | workflowVersionNotFound
  | workflowSlugConflict
  | workflowPublishConflict
  | workflowNotPublished
  | workflowExecutionNotFound
  | workflowExecutionTerminal
  | workflowExecutionIdempotencyConflict
  | other (message : String)
deriving DecidableEq

/-- `err.Error()`. -/
def Err.message : Err → String
  | .taskNotFound => "task not found"
  | .duplicateIdempotencyKey => "task with idempotency key already exists"
  | .taskAlreadyLocked => "task is locked by another worker"
  | .queueEmpty => "queue is empty"
  | .invalidPayload => "invalid task payload"
  | .invalidInput => "invalid input parameters"
  | .idempotencyConflict => "idempotency key reused with a different request"
  | .invalidStateTransition => "invalid task state transition"
  | .dispatchUnavailable => "task persisted but broker dispatch is unavailable"
  | .webhookEndpointNotFound => "webhook endpoint not found"
  | .webhookDeliveryNotFound => "webhook delivery not found"
  | .workflowNotFound => "workflow not found"
  | .workflowVersionNotFound => "workflow version not found"
  | .workflowSlugConflict => "workflow slug already exists"
  | .workflowPublishConflict => "workflow changed during publish"
  | .workflowNotPublished => "workflow is not published"
  | .workflowExecutionNotFound => "workflow execution not found"
  | .workflowExecutionTerminal => "workflow execution is terminal"
  | .workflowExecutionIdempotencyConflict => "workflow execution idempotency conflict"
  | .other message => message

/-- `errors.Join` of two errors. -/
def Err.join (a b : Err) : Err := .other (a.message ++ "\n" ++ b.message)

/-! ### Tasks -/

inductive TaskStatus where
  | pending | processing | completed | failed | deadLetter | cancelled
deriving DecidableEq

def TaskStatus.text : TaskStatus → String
  | .pending => "pending"
  | .processing => "processing"
  | .completed => "completed"
  | .failed => "failed"
  | .deadLetter => "dead_letter"
  | .cancelled => "cancelled"

/-- `Task.IsTerminal`. -/
def TaskStatus.terminal : TaskStatus → Bool
  | .completed | .failed | .deadLetter | .cancelled => true
  | .pending | .processing => false

structure Task where
  id : UUID
  orgID : UUID
  queue : String
  payload : RawMessage
  status : TaskStatus
  idempotencyKey : String
  requestFingerprint : String
  priority : Int
  backoffStrategy : String
  traceID : String
  attempts : Int
  maxAttempts : Int
  taskTimeout : Duration
  visibilityTimeout : Duration
  visibleAt : Time
  lockedBy : Option String
  lastHeartbeatAt : Option Time
  createdAt : Time
  updatedAt : Time
  scheduledAt : Time
  completedAt : Option Time
  deletedAt : Option Time
  dispatchedAt : Option Time
  lastError : String
deriving DecidableEq

/-- `domain.NewTask`. -/
def newTask (id orgID : UUID) (queue : String) (payload : RawMessage) (idempotencyKey requestFingerprint : String)
    (maxAttempts : Int) (visibilityTimeout : Duration) (now : Time) : Task where
  id := id
  orgID := orgID
  queue := queue
  payload := payload
  status := .pending
  idempotencyKey := idempotencyKey
  requestFingerprint := requestFingerprint
  priority := 0
  backoffStrategy := "exponential"
  traceID := ""
  attempts := 0
  maxAttempts := maxAttempts
  taskTimeout := 0
  visibilityTimeout := visibilityTimeout
  visibleAt := now
  lockedBy := none
  lastHeartbeatAt := none
  createdAt := now
  updatedAt := now
  scheduledAt := now
  completedAt := none
  deletedAt := none
  dispatchedAt := none
  lastError := ""

/-- `Task.IsExhausted`: the retry budget is spent. -/
def Task.isExhausted (t : Task) : Bool := t.maxAttempts ≤ t.attempts

/-- `Task.MarkProcessing`. -/
def Task.markProcessing (t : Task) (workerID : String) (now : Time) : Task :=
  { t with
    status := .processing
    lockedBy := some workerID
    attempts := t.attempts + 1
    visibleAt := now + t.visibilityTimeout
    lastHeartbeatAt := some now
    updatedAt := now }

/-- The tasks of a queue by status; a status that no task has is left out. -/
structure QueueStats where
  queue : String
  byStatus : List (String × Nat)
  total : Nat
deriving DecidableEq

structure Worker where
  id : String
  orgID : UUID
  queue : String
  status : String
  lastHeartbeatAt : Time
  createdAt : Time
  updatedAt : Time
deriving DecidableEq

/-! ### Webhooks -/

inductive WebhookEventType where
  | taskCreated | taskProcessing | taskCompleted | taskFailed | taskDeadLetter | taskCancelled | workflowNode
deriving DecidableEq

def WebhookEventType.text : WebhookEventType → String
  | .taskCreated => "task.created"
  | .taskProcessing => "task.processing"
  | .taskCompleted => "task.completed"
  | .taskFailed => "task.failed"
  | .taskDeadLetter => "task.dead_letter"
  | .taskCancelled => "task.cancelled"
  | .workflowNode => "workflow.node"

/-- `WebhookEventType.Valid`: what an endpoint can subscribe to. -/
def WebhookEventType.valid : WebhookEventType → Bool
  | .workflowNode => false
  | _ => true

inductive WebhookDeliveryStatus where
  | pending | delivering | delivered | retrying | failed
deriving DecidableEq

def WebhookDeliveryStatus.text : WebhookDeliveryStatus → String
  | .pending => "pending"
  | .delivering => "delivering"
  | .delivered => "delivered"
  | .retrying => "retrying"
  | .failed => "failed"

structure WebhookEndpoint where
  id : UUID
  orgID : UUID
  name : String
  url : String
  secretHash : String
  secretCiphertext : String
  eventTypes : List WebhookEventType
  isActive : Bool
  deletedAt : Option Time
  createdAt : Time
  updatedAt : Time
deriving DecidableEq

structure WebhookDelivery where
  id : UUID
  orgID : UUID
  endpointID : UUID
  eventType : WebhookEventType
  payload : RawMessage
  status : WebhookDeliveryStatus
  attemptCount : Int
  maxAttempts : Int
  nextAttemptAt : Option Time
  lastAttemptAt : Option Time
  responseStatus : Option Int
  responseBody : Option String
  lastError : Option String
  createdAt : Time
  updatedAt : Time
deriving DecidableEq

/-! ### Workflows -/

inductive WorkflowStatus where
  | draft | published | archived
deriving DecidableEq

def WorkflowStatus.text : WorkflowStatus → String
  | .draft => "draft"
  | .published => "published"
  | .archived => "archived"

/-- `WorkflowNodeType`, a string in the source: the five supported types, and any other text. -/
inductive WorkflowNodeType where
  | trigger | task | webhook | condition | delay
  | other (text : String)
deriving DecidableEq

def WorkflowNodeType.valid : WorkflowNodeType → Bool
  | .other _ => false
  | _ => true

/-- A node of a definition. `config` is a Go map: `none` is the nil map, and no key repeats in a map. -/
structure WorkflowNode where
  id : String
  type : WorkflowNodeType
  name : String
  config : Option (List (String × Json))
deriving DecidableEq

structure WorkflowEdge where
  id : String
  source : String
  target : String
  condition : RawMessage
deriving DecidableEq

/-- `none` is a nil slice. -/
structure WorkflowDefinition where
  nodes : Option (List WorkflowNode)
  edges : Option (List WorkflowEdge)
deriving DecidableEq

namespace WorkflowDefinition

/-- The nodes a `range` loop visits. -/
def nodeList (d : WorkflowDefinition) : List WorkflowNode := d.nodes.getD []

/-- The edges a `range` loop visits. -/
def edgeList (d : WorkflowDefinition) : List WorkflowEdge := d.edges.getD []

end WorkflowDefinition

structure Workflow where
  id : UUID
  orgID : UUID
  name : String
  slug : String
  description : Option String
  status : WorkflowStatus
  definition : WorkflowDefinition
  createdAt : Time
  updatedAt : Time
  deletedAt : Option Time
deriving DecidableEq

inductive WorkflowVersionStatus where
  | published | deprecated
deriving DecidableEq

structure WorkflowVersion where
  id : UUID
  orgID : UUID
  workflowID : UUID
  version : Int
  name : String
  slug : String
  description : Option String
  definition : WorkflowDefinition
  status : WorkflowVersionStatus
  publishedAt : Time
  createdAt : Time
deriving DecidableEq

/-- A version as it is listed. -/
structure WorkflowVersionSummary where
  version : Int
  versionID : UUID
  status : WorkflowVersionStatus
  publishedAt : Time
  name : String
  slug : String
deriving DecidableEq

structure WorkflowValidationError where
  code : String
  message : String
  path : String
deriving DecidableEq

structure WorkflowValidationResult where
  valid : Bool
  errors : List WorkflowValidationError
deriving DecidableEq

/-! ### Executions -/

inductive WorkflowExecutionStatus where
  | pending | running | succeeded | failed | cancelled
deriving DecidableEq

namespace WorkflowExecutionStatus

def terminal : WorkflowExecutionStatus → Bool
  | .succeeded | .failed | .cancelled => true
  | .pending | .running => false

def text : WorkflowExecutionStatus → String
  | .pending => "pending"
  | .running => "running"
  | .succeeded => "succeeded"
  | .failed => "failed"
  | .cancelled => "cancelled"

end WorkflowExecutionStatus

inductive WorkflowNodeExecutionStatus where
  | pending | queued | running | succeeded | failed | skipped | cancelled
deriving DecidableEq

namespace WorkflowNodeExecutionStatus

def terminal : WorkflowNodeExecutionStatus → Bool
  | .succeeded | .failed | .skipped | .cancelled => true
  | .pending | .queued | .running => false

def text : WorkflowNodeExecutionStatus → String
  | .pending => "pending"
  | .queued => "queued"
  | .running => "running"
  | .succeeded => "succeeded"
  | .failed => "failed"
  | .skipped => "skipped"
  | .cancelled => "cancelled"

end WorkflowNodeExecutionStatus

structure WorkflowExecution where
  id : UUID
  orgID : UUID
  workflowID : UUID
  workflowVersionID : UUID
  workflowVersion : Int
  status : WorkflowExecutionStatus
  input : RawMessage
  output : RawMessage
  errorCode : String
  errorMessage : String
  idempotencyKey : String
  requestFingerprint : String
  startedAt : Option Time
  completedAt : Option Time
  createdAt : Time
  updatedAt : Time
deriving DecidableEq

structure WorkflowNodeExecution where
  id : UUID
  orgID : UUID
  workflowExecutionID : UUID
  nodeID : String
  nodeType : WorkflowNodeType
  status : WorkflowNodeExecutionStatus
  attempt : Int
  input : RawMessage
  output : RawMessage
  errorCode : String
  errorMessage : String
  queueTaskID : Option UUID
  webhookDeliveryID : Option UUID
  availableAt : Option Time
  startedAt : Option Time
  completedAt : Option Time
  createdAt : Time
  updatedAt : Time
deriving DecidableEq

/-! ### Pages -/

/-- A page of a list, and the cursor of the next one. -/
structure Page (ρ : Type) where
  items : List ρ
  nextCursor : String
deriving DecidableEq

/-- Where a page starts: at the top, or after the row with a time of creation and an id. -/
abbrev Cursor := Option (Time × UUID)

/-- `(created_at, id) < (…, …)`, for a row after the cursor. -/
def Cursor.passed (after : Cursor) (row : Time × UUID) : Bool :=
  match after with
  | none => true
  | some (createdAt, id) => row.1 < createdAt || (row.1 = createdAt && row.2 < id)

/-- `ORDER BY created_at DESC, id DESC`. -/
def newestFirst {ρ : Type} (key : ρ → Time × UUID) (a b : ρ) : Bool :=
  (key b).1 < (key a).1 || ((key a).1 = (key b).1 && (key b).2 < (key a).2)

/-! ### Metric events -/

inductive MetricEventType where
  | taskIngested | taskStarted | taskSucceeded | taskFailed | taskRetryScheduled | taskDeadLettered | taskCancelled
  | deliveryCreated | deliveryStarted | deliverySucceeded | deliveryFailed | deliveryRetryScheduled
  | deliveryExhausted
  | workflowExecutionCreated | workflowExecutionStarted | workflowExecutionSucceeded | workflowExecutionFailed
  | workflowExecutionCancelled
  | nodeExecutionStarted | nodeExecutionSucceeded | nodeExecutionFailed | nodeExecutionSkipped
  | nodeExecutionCancelled
  | workerRegistered | workerHeartbeat | workerStopped | workerStale
  | queueSnapshotCaptured
deriving DecidableEq

def MetricEventType.text : MetricEventType → String
  | .taskIngested => "task.ingested"
  | .taskStarted => "task.started"
  | .taskSucceeded => "task.succeeded"
  | .taskFailed => "task.failed"
  | .taskRetryScheduled => "task.retry_scheduled"
  | .taskDeadLettered => "task.dead_lettered"
  | .taskCancelled => "task.cancelled"
  | .deliveryCreated => "delivery.created"
  | .deliveryStarted => "delivery.started"
  | .deliverySucceeded => "delivery.succeeded"
  | .deliveryFailed => "delivery.failed"
  | .deliveryRetryScheduled => "delivery.retry_scheduled"
  | .deliveryExhausted => "delivery.exhausted"
  | .workflowExecutionCreated => "workflow_execution.created"
  | .workflowExecutionStarted => "workflow_execution.started"
  | .workflowExecutionSucceeded => "workflow_execution.succeeded"
  | .workflowExecutionFailed => "workflow_execution.failed"
  | .workflowExecutionCancelled => "workflow_execution.cancelled"
  | .nodeExecutionStarted => "node_execution.started"
  | .nodeExecutionSucceeded => "node_execution.succeeded"
  | .nodeExecutionFailed => "node_execution.failed"
  | .nodeExecutionSkipped => "node_execution.skipped"
  | .nodeExecutionCancelled => "node_execution.cancelled"
  | .workerRegistered => "worker.registered"
  | .workerHeartbeat => "worker.heartbeat"
  | .workerStopped => "worker.stopped"
  | .workerStale => "worker.stale"
  | .queueSnapshotCaptured => "queue.snapshot.captured"

inductive MetricSource where
  | queueFlow | eventForge | taskCanvas | worker | queue
deriving DecidableEq

def MetricSource.text : MetricSource → String
  | .queueFlow => "queueflow"
  | .eventForge => "eventforge"
  | .taskCanvas => "taskcanvas"
  | .worker => "worker"
  | .queue => "queue"

inductive MetricResourceType where
  | task | webhookDelivery | workflowExecution | nodeExecution | worker | queueSnapshot
deriving DecidableEq

def MetricResourceType.text : MetricResourceType → String
  | .task => "task"
  | .webhookDelivery => "webhook_delivery"
  | .workflowExecution => "workflow_execution"
  | .nodeExecution => "workflow_node_execution"
  | .worker => "worker"
  | .queueSnapshot => "queue_snapshot"

structure NewMetricEventInput where
  organizationID : UUID
  source : MetricSource
  eventType : MetricEventType
  resourceType : MetricResourceType
  resourceID : UUID
  queue : String
  status : String
  durationMS : Option Int
  occurredAt : Time
  attempt : Option Int
  maxAttempts : Option Int
  errorCode : String
  transitionKey : String
deriving DecidableEq

end Windylane
