import Windylane.Service.Tasks

/-! Metric events, after `internal/domain/metric.go`, and the table of them, after
    `internal/storage/postgres/metric_repository.go`. Rows of `metric_events` are inserted only: a trigger rejects every
    update and every delete. -/

namespace Windylane

/-! ### Events -/

def metricSources : List MetricSource := [.queueFlow, .eventForge, .taskCanvas, .worker, .queue]

def metricEventsBySource : MetricSource → List MetricEventType
  | .queueFlow =>
    [.taskIngested, .taskStarted, .taskSucceeded, .taskFailed, .taskRetryScheduled, .taskDeadLettered, .taskCancelled]
  | .eventForge =>
    [.deliveryCreated, .deliveryStarted, .deliverySucceeded, .deliveryFailed, .deliveryRetryScheduled,
      .deliveryExhausted]
  | .taskCanvas =>
    [.workflowExecutionCreated, .workflowExecutionStarted, .workflowExecutionSucceeded, .workflowExecutionFailed,
      .workflowExecutionCancelled, .nodeExecutionStarted, .nodeExecutionSucceeded, .nodeExecutionFailed,
      .nodeExecutionSkipped, .nodeExecutionCancelled]
  | .worker => [.workerRegistered, .workerHeartbeat, .workerStopped, .workerStale]
  | .queue => [.queueSnapshotCaptured]

def metricResourceAllowed (source : MetricSource) (resource : MetricResourceType) : Bool :=
  match source with
  | .taskCanvas => resource = .workflowExecution || resource = .nodeExecution
  | .queueFlow => resource = .task
  | .eventForge => resource = .webhookDelivery
  | .worker => resource = .worker
  | .queue => resource = .queueSnapshot

structure MetricMetadata where
  attempt : Option Int
  maxAttempts : Option Int
  errorCode : String
  previousStatus : String
deriving DecidableEq

structure MetricEvent where
  id : UUID
  organizationID : UUID
  source : MetricSource
  eventType : MetricEventType
  resourceType : MetricResourceType
  resourceID : String
  queue : String
  status : String
  durationMS : Option Int
  occurredAt : Time
  metadata : MetricMetadata
  createdAt : Time
deriving DecidableEq

/-- `MetricMetadata` as JSON; what is not set is left out. -/
def MetricMetadata.json (metadata : MetricMetadata) : Json :=
  .obj ((metadata.attempt.map fun n => ("attempt", Json.num n)).toList ++
    (metadata.maxAttempts.map fun n => ("max_attempts", Json.num n)).toList ++
    (if metadata.errorCode = "" then [] else [("error_code", .str metadata.errorCode)]) ++
    (if metadata.previousStatus = "" then [] else [("previous_status", .str metadata.previousStatus)]))

/-- `MetricEvent.Validate`. -/
def MetricEvent.validate (h : Host) (event : MetricEvent) : Except Err Unit :=
  if event.id = .nil ∨ event.organizationID = .nil ∨ event.occurredAt = zeroTime ∨ event.createdAt = zeroTime ∨
      event.resourceID = "" ∨ 255 < event.resourceID.utf8ByteSize ∨ 64 < event.queue.utf8ByteSize ∨
      64 < event.status.utf8ByteSize then .error .invalidInput
  else if event.eventType ∉ metricEventsBySource event.source ∨
      metricResourceAllowed event.source event.resourceType = false then .error .invalidInput
  else if event.durationMS.any (· < 0) then .error .invalidInput
  else if event.metadata.attempt.any (· < 0) ∨ event.metadata.maxAttempts.any (· < 0) ∨
      64 < event.metadata.errorCode.utf8ByteSize ∨ 64 < event.metadata.previousStatus.utf8ByteSize then
    .error .invalidInput
  else if 512 < (h.marshal event.metadata.json).utf8ByteSize then .error .invalidInput
  else .ok ()

/-- What `NewMetricEvent` makes the id of an event of. -/
def NewMetricEventInput.identity (input : NewMetricEventInput) : String :=
  "\x1f".intercalate [input.organizationID.text, input.source.text, input.eventType.text, input.resourceType.text,
    trimSpace input.resourceID.text, trimSpace input.transitionKey]

/-- `NewMetricEvent`; `newSHA1` is `uuid.NewSHA1` in the name space of metric events. -/
def newMetricEvent (h : Host) (newSHA1 : String → UUID) (input : NewMetricEventInput) : Except Err MetricEvent :=
  let event : MetricEvent :=
    { id := newSHA1 input.identity
      organizationID := input.organizationID
      source := input.source
      eventType := input.eventType
      resourceType := input.resourceType
      resourceID := trimSpace input.resourceID.text
      queue := trimSpace input.queue
      status := trimSpace input.status
      durationMS := input.durationMS
      occurredAt := input.occurredAt
      metadata := ⟨input.attempt, input.maxAttempts, input.errorCode, ""⟩
      createdAt := input.occurredAt }
  (event.validate h).map fun _ => event

/-! ### The table -/

namespace Metrics

/-- `INSERT INTO metric_events … ON CONFLICT (id) DO NOTHING`. -/
def insert (event : MetricEvent) (rows : List MetricEvent) : List MetricEvent :=
  if rows.any (fun r => r.id = event.id) then rows else rows ++ [event]

def appendMetricEvent (h : Host) (event : MetricEvent) (rows : List MetricEvent) : Except Err Unit × List MetricEvent :=
  match event.validate h with
  | .error e => (.error e, rows)
  | .ok _ => (.ok (), insert event rows)

/-- The batch is one transaction, and it is not sent before every event was checked. -/
def appendMetricEvents (h : Host) (events : List MetricEvent) (rows : List MetricEvent) :
    Except Err Unit × List MetricEvent :=
  if 1000 < events.length then (.error .invalidInput, rows)
  else match events.find? fun event => (event.validate h).toBool = false with
    | some _ => (.error .invalidInput, rows)
    | none => (.ok (), events.foldl (fun rows event => insert event rows) rows)

end Metrics

structure MetricEventFilter where
  fromTime : Time
  toTime : Time
  source : String
  eventType : String
  cursor : String
  limit : Int

/-- `MetricEventFilter.Validate`. -/
def MetricEventFilter.validate (filter : MetricEventFilter) : Except Err Unit :=
  if filter.fromTime = zeroTime ∨ filter.toTime = zeroTime ∨ ¬filter.fromTime < filter.toTime ∨
      seconds (31 * 24 * 3600) < filter.toTime - filter.fromTime ∨ filter.limit < 1 ∨ 1000 < filter.limit then
    .error .invalidInput
  else if filter.source ≠ "" ∧ filter.eventType ≠ "" ∧
      ¬metricSources.any (fun s => s.text = filter.source &&
        (metricEventsBySource s).any fun t => t.text = filter.eventType) then .error .invalidInput
  else if filter.source ≠ "" ∧ ¬metricSources.any (fun s => s.text = filter.source) then .error .invalidInput
  else if filter.eventType ≠ "" ∧ filter.source = "" then .error .invalidInput
  else .ok ()

/-- The rows that a filter asks for. -/
def MetricEventFilter.matching (orgID : UUID) (filter : MetricEventFilter) (e : MetricEvent) : Bool :=
  e.organizationID = orgID && filter.fromTime ≤ e.occurredAt && e.occurredAt < filter.toTime &&
    (filter.source = "" || e.source.text = filter.source) &&
    (filter.eventType = "" || e.eventType.text = filter.eventType)

/-- `ListMetricEvents`. The limit was checked and is not replaced by a default. -/
def listMetricEvents (h : Host) (orgID : UUID) (filter : MetricEventFilter) (rows : List MetricEvent) :
    Except Err (Page MetricEvent) :=
  if orgID = .nil then .error .invalidInput
  else match filter.validate with
    | .error e => .error e
    | .ok _ =>
      match if filter.cursor = "" then some none else (h.decodeCursor filter.cursor).map some with
      | none => .error .invalidInput
      | some after =>
        .ok (h.cut filter.limit.toNat (fun e => (e.occurredAt, e.id))
          (Table.firstBy (newestFirst fun e => (e.occurredAt, e.id)) (filter.limit.toNat + 1)
            (rows.filter fun e => filter.matching orgID e && Cursor.passed after (e.occurredAt, e.id))))

end Windylane
