import Windylane.Machine

/-! The task service, after `internal/usecase/service.go` and `webhook_events.go`. -/

namespace Windylane

open Script

/-! ### Pages -/

/-- The rows of a page, out of range replaced by the default. -/
def pageLimit (limit : Int) : Nat := if limit ≤ 0 ∨ 100 < limit then 50 else limit.toNat

/-- A page of at most `limit` rows of those selected, with a cursor when there are more. -/
def Host.cut {ρ : Type} (h : Host) (limit : Nat) (key : ρ → Time × UUID) (rows : List ρ) : Page ρ :=
  if limit < rows.length then
    ⟨rows.take limit, match (rows.take limit).getLast? with
      | some last => h.encodeCursor (key last)
      | none => ""⟩
  else ⟨rows, ""⟩

/-- The page after `cursor` of the rows that `select` answers, which is asked for one row more than the page has. -/
def Host.page {ρ : Type} (h : Host) (key : ρ → Time × UUID) (cursor : String) (limit : Int)
    (select : Cursor → Nat → Script (List ρ)) : Script (Page ρ) :=
  match if cursor = "" then some none else (h.decodeCursor cursor).map some with
  | none => fail .invalidInput
  | some after => do
    let rows ← select after (pageLimit limit + 1)
    pure (h.cut (pageLimit limit) key rows)

/-! ### Webhook events of tasks -/

/-- What `NewWebhookEventService` and the webhook dispatcher make of the configured limit. -/
def Host.maxAttempts (h : Host) : Int := if h.webhookMaxAttempts ≤ 0 then 5 else h.webhookMaxAttempts

/-- `domain.WebhookEventPayload` as JSON; an empty `last_error` is left out. -/
def webhookEventPayload (h : Host) (eventID : UUID) (eventType : WebhookEventType) (now : Time) (task : Task) : Json :=
  .obj [
    ("event_id", .str eventID.text),
    ("event_type", .str eventType.text),
    ("created_at", .str (h.formatTime now)),
    ("org_id", .str task.orgID.text),
    ("task", .obj ([
      ("id", .str task.id.text),
      ("queue", .str task.queue),
      ("status", .str task.status.text),
      ("priority", .num task.priority),
      ("attempts", .num task.attempts),
      ("max_attempts", .num task.maxAttempts)] ++
      (if task.lastError = "" then [] else [("last_error", .str task.lastError)]) ++ [
      ("created_at", .str (h.formatTime task.createdAt)),
      ("updated_at", .str (h.formatTime task.updatedAt))]))]

/-- A pending delivery that was never attempted. -/
def newDelivery (id orgID endpointID : UUID) (eventType : WebhookEventType) (payload : Json) (maxAttempts : Int)
    (now : Time) : WebhookDelivery where
  id := id
  orgID := orgID
  endpointID := endpointID
  eventType := eventType
  payload := .json payload
  status := .pending
  attemptCount := 0
  maxAttempts := maxAttempts
  nextAttemptAt := none
  lastAttemptAt := none
  responseStatus := none
  responseBody := none
  lastError := none
  createdAt := now
  updatedAt := now

def deliveryCreated (delivery : WebhookDelivery) : NewMetricEventInput where
  organizationID := delivery.orgID
  source := .eventForge
  eventType := .deliveryCreated
  resourceType := .webhookDelivery
  resourceID := delivery.id
  queue := ""
  status := delivery.status.text
  durationMS := none
  occurredAt := delivery.createdAt
  attempt := none
  maxAttempts := none
  errorCode := ""
  transitionKey := "created"

/-- One delivery for each endpoint; an endpoint whose delivery cannot be stored does not stop the others. The
    answer is whether all were stored. -/
def createDeliveries (h : Host) (eventType : WebhookEventType) (task : Task) (payload : Json) (now : Time) :
    List WebhookEndpoint → Script Bool
  | [] => pure true
  | endpoint :: rest => do
    let id ← newUUID
    let delivery := newDelivery id task.orgID endpoint.id eventType payload h.maxAttempts now
    match ← tryHook (.createWebhookDelivery delivery) with
    | .error _ =>
      let _ ← createDeliveries h eventType task payload now rest
      pure false
    | .ok _ =>
      record (deliveryCreated delivery)
      createDeliveries h eventType task payload now rest

/-- `PublishTaskEvent`. Its callers drop or log the error, so only that there is one is answered. -/
def publishTaskEvent (h : Host) (eventType : WebhookEventType) (task : Task) : Script Bool :=
  if eventType.valid then do
    match ← tryHook (.listActiveWebhookEndpointsForEvent task.orgID eventType) with
    | .error _ => pure false
    | .ok endpoints =>
      if endpoints.isEmpty then pure true
      else
        let now ← now
        let eventID ← newUUID
        createDeliveries h eventType task (webhookEventPayload h eventID eventType now task) now endpoints
  else pure false

/-! ### Creating tasks -/

structure CreateTaskInput where
  orgID : UUID
  idempotencyKey : String
  queue : String
  payload : RawMessage
  priority : Int
  maxRetries : Int
  timeout : Duration
  visibilityTimeout : Duration
  scheduledAt : Option Time
  backoffStrategy : String
  traceID : String

/-- What `CreateTask` and `RetryTask` return: a task can come with an error. -/
structure TaskResult where
  task : Option Task
  reused : Bool
  err : Option Err
deriving DecidableEq

/-- `requestFingerprint`: the digest of the request, and its payload as stored. -/
def requestFingerprint (h : Host) (input : CreateTaskInput) : Option (String × RawMessage) :=
  input.payload.unmarshal.map fun payload =>
    let canonical := Json.obj [
      ("queue", .str input.queue),
      ("payload", payload),
      ("priority", .num input.priority),
      ("max_retries", .num input.maxRetries),
      ("timeout_ms", .num (input.timeout.tdiv 1000)),
      ("visibility_timeout_ms", .num (input.visibilityTimeout.tdiv 1000)),
      ("scheduled_at", match input.scheduledAt with
        | some t => .str (h.formatTime t)
        | none => .null),
      ("backoff_strategy", .str input.backoffStrategy)]
    (h.sha256 (h.marshal canonical), .json payload)

def taskIngested (task : Task) : NewMetricEventInput where
  organizationID := task.orgID
  source := .queueFlow
  eventType := .taskIngested
  resourceType := .task
  resourceID := task.id
  queue := task.queue
  status := task.status.text
  durationMS := none
  occurredAt := task.createdAt
  attempt := none
  maxAttempts := none
  errorCode := ""
  transitionKey := "created"

/-- The task that a request asks for. -/
def requestedTask (input : CreateTaskInput) (fingerprint : String) (payload : RawMessage) (id : UUID) (now : Time) :
    Task :=
  let task := newTask id input.orgID input.queue payload input.idempotencyKey fingerprint (input.maxRetries + 1)
    input.visibilityTimeout now
  let task := { task with
    priority := input.priority
    backoffStrategy := input.backoffStrategy
    taskTimeout := input.timeout
    traceID := input.traceID }
  match input.scheduledAt with
  | some t => { task with scheduledAt := t, visibleAt := t }
  | none => task

/-- The answer for a task that already has the key. -/
def reuseTask (existing : Task) (fingerprint : String) : TaskResult :=
  if existing.requestFingerprint ≠ fingerprint then ⟨none, false, some .idempotencyConflict⟩
  else ⟨some existing, true, none⟩

/-- The second half of `CreateTask`, once the row is stored. -/
def dispatchCreated (h : Host) (task : Task) : Script TaskResult := do
  record (taskIngested task)
  let _ ← publishTaskEvent h .taskCreated task
  let now ← now
  let sent ←
    if now < task.scheduledAt then do
      let later ← Script.now
      tryBroker (.enqueueDelayed task.orgID task.queue task.id task.priority (Time.sub task.scheduledAt later))
    else tryBroker (.enqueue task.orgID task.queue task.id task.priority)
  match sent with
  | .error _ => pure ⟨some task, false, some .dispatchUnavailable⟩
  | .ok _ =>
    match ← tryTask (.markDispatched task.orgID task.id now) with
    | .error e => pure ⟨some task, false, some e⟩
    | .ok _ => pure ⟨some task, false, none⟩

def createTask (h : Host) (input : CreateTaskInput) : Script TaskResult :=
  match requestFingerprint h input with
  | none => pure ⟨none, false, some .invalidPayload⟩
  | some (fingerprint, payload) => do
    match ← tryTask (.findByIdempotencyKey input.orgID input.queue input.idempotencyKey) with
    | .ok existing => pure (reuseTask existing fingerprint)
    | .error .taskNotFound =>
      let now ← now
      let id ← newUUID
      let task := requestedTask input fingerprint payload id now
      match ← tryTask (.create task) with
      | .ok _ => dispatchCreated h task
      | .error .duplicateIdempotencyKey =>
        match ← tryTask (.findByIdempotencyKey input.orgID input.queue input.idempotencyKey) with
        | .ok existing => pure (reuseTask existing fingerprint)
        | .error _ => pure ⟨none, false, some .duplicateIdempotencyKey⟩
      | .error e => pure ⟨none, false, some e⟩
    | .error e => pure ⟨none, false, some e⟩

/-! ### The other task operations -/

def retryTask (orgID id : UUID) : Script TaskResult := do
  match ← tryTask (.getByID orgID id) with
  | .error e => pure ⟨none, false, some e⟩
  | .ok task =>
    let now ← now
    match ← tryTask (.requeue orgID id now) with
    | .error e => pure ⟨none, false, some e⟩
    | .ok _ =>
      let task := { task with status := .pending, attempts := 0, visibleAt := now }
      match ← tryBroker (.enqueue task.orgID task.queue task.id task.priority) with
      | .error _ => pure ⟨some task, false, some .dispatchUnavailable⟩
      | .ok _ =>
        match ← tryTask (.markDispatched orgID id now) with
        | .error e => pure ⟨some task, false, some e⟩
        | .ok _ =>
          match ← tryTask (.getByID orgID id) with
          | .error e => pure ⟨none, false, some e⟩
          | .ok task => pure ⟨some task, false, none⟩

def taskCancelled (task : Task) : NewMetricEventInput :=
  { taskIngested task with eventType := .taskCancelled, occurredAt := task.updatedAt, transitionKey := "cancelled" }

def cancelTask (h : Host) (orgID id : UUID) : Script TaskResult := do
  let now ← now
  match ← tryTask (.cancel orgID id now) with
  | .error e => pure ⟨none, false, some e⟩
  | .ok task =>
    let _ ← tryBroker (.remove orgID task.queue task.id)
    record (taskCancelled task)
    let _ ← publishTaskEvent h .taskCancelled task
    pure ⟨some task, false, none⟩

def softDeleteTask (orgID id : UUID) : Script (Option Err) := do
  match ← tryTask (.getByID orgID id) with
  | .error e => pure (some e)
  | .ok task =>
    if !task.status.terminal then pure (some .invalidStateTransition)
    else
      let now ← now
      match ← tryTask (.softDelete orgID id now) with
      | .error e => pure (some e)
      | .ok _ =>
        let _ ← tryBroker (.remove orgID task.queue id)
        pure none

def getTask (orgID id : UUID) : Script Task := task (.getByID orgID id)

structure TaskFilter where
  queue : String
  status : String
  cursor : String
  limit : Int

def listTasks (h : Host) (orgID : UUID) (filter : TaskFilter) : Script (Page Task) :=
  h.page (fun t => (t.createdAt, t.id)) filter.cursor filter.limit fun after limit =>
    task (.listTasks orgID filter.queue filter.status after limit)

/-- `ListDLQ`, and `ListDeadLetter` under it. -/
def listDLQ (h : Host) (orgID : UUID) (queue cursor : String) (limit : Int) : Script (Page Task) :=
  listTasks h orgID ⟨queue, TaskStatus.deadLetter.text, cursor, limit⟩

def queueStats (orgID : UUID) (queue : String) : Script QueueStats := task (.queueStats orgID queue)

def listWorkers (orgID : UUID) : Script (List Worker) := worker (.listWorkers orgID)

/-- The zero `time.Time`. -/
def zeroTime : Time := seconds (-62135596800)

def workerHeartbeat (w : Worker) : Script Unit := do
  let now ← now
  worker (.upsertWorkerHeartbeat { w with
    lastHeartbeatAt := now
    createdAt := if w.createdAt = zeroTime then now else w.createdAt
    status := if w.status = "" then "online" else w.status })

end Windylane
