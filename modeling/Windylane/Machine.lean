import Windylane.Lib.Rely
import Windylane.Store.Tasks
import Windylane.Store.Broker
import Windylane.Store.Webhooks
import Windylane.Store.Canvas

/-! The machine the services run on: one world with the Postgres tables and the Redis keys, and the operations
    the services call on it. One operation is one statement, transaction or script. The environment of a step
    decides what the program does not: clock readings, fresh ids and secrets, the nonce of a cipher, row locks held
    elsewhere, the outcome of an HTTP request or of a job handler, and faults. -/

namespace Windylane

open Conc

/-- What `url.ParseRequestURI` reads of a URL. -/
structure URL where
  scheme : String
  host : String
  hostname : String

structure RetryPolicy where
  initialBackoff : Duration
  maxBackoff : Duration
  backoffMultiplier : Rat

/-- Functions of other packages, and the configuration of the services. -/
structure Host where
  /-- `uuid.Parse`. -/
  uuidParse : String → Option UUID
  /-- `uuid.NewSHA1` in the name space `uuid.NameSpaceOID`. -/
  newSHA1 : String → UUID
  /-- The SHA-256 digest in hexadecimal. -/
  sha256 : String → String
  /-- The text `json.Marshal` writes. -/
  marshal : Json → String
  /-- A time as JSON writes it. -/
  formatTime : Time → String
  /-- `WebhookSecretCipher.Decrypt`. -/
  decrypt : String → Except String String
  /-- `WebhookSigner.Sign`. -/
  sign : String → String → RawMessage → String
  /-- `url.ParseRequestURI`. -/
  parseRequestURI : String → Option URL
  /-- `net.ParseIP` of an address that is loopback. -/
  isLoopback : String → Bool
  /-- `strings.ToLower`. -/
  toLower : String → String
  /-- `strings.EqualFold`. -/
  equalFold : String → String → Bool
  /-- `unicode.IsLetter` or `unicode.IsDigit`. -/
  isLetterOrDigit : Char → Bool
  /-- The strict decoder of a `WorkflowDefinition`; `none` when it fails or bytes are left. -/
  decodeDefinition : RawMessage → Option WorkflowDefinition
  encodeCursor : Time × UUID → String
  decodeCursor : String → Option (Time × UUID)
  retryPolicy : RetryPolicy
  webhookMaxAttempts : Int
  webhookBatchSize : Int
  webhookInitialBackoff : Duration
  webhookMaxBackoff : Duration
  allowInsecureLocal : Bool

inductive Fault where
  /-- The operation did not happen. -/
  | lost (e : Err)
  /-- The operation happened, and its answer was lost. -/
  | unacked (e : Err)

structure WebhookHTTPResponse where
  statusCode : Int
  body : String
deriving DecidableEq

structure WebhookHTTPRequest where
  url : String
  event : WebhookEventType
  delivery : UUID
  timestamp : Int
  signature : String
  body : RawMessage
deriving DecidableEq

structure Env where
  now : Time
  dbNow : Time
  fresh : UUID
  locked : List UUID
  fault : Option Fault
  reply : Except String WebhookHTTPResponse
  handler : Option String
  secret : Except String String
  encrypt : String → Except String String

structure World where
  tasks : List Task
  workers : List Worker
  broker : Broker.Store
  hooks : Webhooks.Store
  canvas : Canvas.Store

/-! ### Operations -/

/-- What a process does outside the stores. `recovery` has no effect: it records that the recovery of a stale
    claim was entered. -/
inductive SysOp where
  | now
  | newUUID
  | send (request : WebhookHTTPRequest)
  | runHandler (payload : RawMessage)
  | record (event : NewMetricEventInput)
  | recovery (executionID : UUID) (nodeID : String)
  | newSecret
  | encrypt (secret : String)

@[reducible] def SysOp.Resp : SysOp → Type
  | .now => Time
  | .newUUID => UUID
  | .send _ => Except String WebhookHTTPResponse
  | .runHandler _ => Option String
  | .record _ => Unit
  | .recovery _ _ => Unit
  | .newSecret | .encrypt _ => Except String String

def SysOp.run (env : Env) : (o : SysOp) → o.Resp
  | .now => env.now
  | .newUUID => env.fresh
  | .send _ => env.reply
  | .runHandler _ => env.handler
  | .record _ => ()
  | .recovery _ _ => ()
  | .newSecret => env.secret
  | .encrypt secret => env.encrypt secret

inductive TaskOp where
  | create (task : Task)
  | getByID (orgID id : UUID)
  | findByIdempotencyKey (orgID : UUID) (queue key : String)
  | claimForProcessing (orgID id : UUID) (workerID : String) (now : Time)
  | heartbeat (orgID id : UUID) (workerID : String) (visibilityTimeout : Duration) (now : Time)
  | complete (orgID id : UUID) (now : Time)
  | fail (orgID id : UUID) (errMsg : String) (nextStatus : TaskStatus) (visibleAt now : Time)
  | moveToDeadLetter (orgID id : UUID) (errMsg : String) (now : Time)
  | reclaimExpired (orgID : UUID) (queue : String) (now : Time) (limit : Nat)
  | requeue (orgID id : UUID) (now : Time)
  | cancel (orgID id : UUID) (now : Time)
  | softDelete (orgID id : UUID) (now : Time)
  | markDispatched (orgID id : UUID) (now : Time)
  | listUndispatchedPending (orgID : UUID) (queue : String) (limit : Nat)
  | listDispatchableTasks (afterID : UUID) (limit : Nat)
  | listTasks (orgID : UUID) (queue status : String) (after : Cursor) (limit : Nat)
  | queueStats (orgID : UUID) (queue : String)

@[reducible] def TaskOp.Resp : TaskOp → Type
  | .getByID _ _ | .findByIdempotencyKey _ _ _ | .claimForProcessing _ _ _ _ | .cancel _ _ _ => Task
  | .reclaimExpired _ _ _ _ | .listUndispatchedPending _ _ _ | .listDispatchableTasks _ _
  | .listTasks _ _ _ _ _ => List Task
  | .queueStats _ _ => QueueStats
  | .create _ | .heartbeat _ _ _ _ _ | .complete _ _ _ | .fail _ _ _ _ _ _ | .moveToDeadLetter _ _ _ _
  | .requeue _ _ _ | .softDelete _ _ _ | .markDispatched _ _ _ => Unit

def TaskOp.run (env : Env) : (o : TaskOp) → List Task → Except Err o.Resp × List Task
  | .create task, rows => Tasks.create task rows
  | .getByID orgID id, rows => (Tasks.getByID orgID id rows, rows)
  | .findByIdempotencyKey orgID queue key, rows => (Tasks.findByIdempotencyKey orgID queue key rows, rows)
  | .claimForProcessing orgID id workerID now, rows => Tasks.claimForProcessing orgID id workerID now env.locked rows
  | .heartbeat orgID id workerID visibilityTimeout now, rows =>
    Tasks.heartbeat orgID id workerID visibilityTimeout now rows
  | .complete orgID id now, rows => Tasks.complete orgID id now rows
  | .fail orgID id errMsg nextStatus visibleAt now, rows => Tasks.fail orgID id errMsg nextStatus visibleAt now rows
  | .moveToDeadLetter orgID id errMsg now, rows => Tasks.moveToDeadLetter orgID id errMsg now rows
  | .reclaimExpired orgID queue now limit, rows => Tasks.reclaimExpired orgID queue now limit env.locked rows
  | .requeue orgID id now, rows => Tasks.requeue orgID id now rows
  | .cancel orgID id now, rows => Tasks.cancel orgID id now rows
  | .softDelete orgID id now, rows => Tasks.softDelete orgID id now rows
  | .markDispatched orgID id now, rows => Tasks.markDispatched orgID id now rows
  | .listUndispatchedPending orgID queue limit, rows =>
    (.ok (Tasks.listUndispatchedPending orgID queue limit env.dbNow rows), rows)
  | .listDispatchableTasks afterID limit, rows => (.ok (Tasks.listDispatchableTasks afterID limit rows), rows)
  | .listTasks orgID queue status after limit, rows => (.ok (Tasks.listTasks orgID queue status after limit rows), rows)
  | .queueStats orgID queue, rows => (.ok (Tasks.queueStats orgID queue rows), rows)

inductive WorkerOp where
  | upsertWorkerHeartbeat (worker : Worker)
  | listWorkers (orgID : UUID)

@[reducible] def WorkerOp.Resp : WorkerOp → Type
  | .upsertWorkerHeartbeat _ => Unit
  | .listWorkers _ => List Worker

def WorkerOp.run : (o : WorkerOp) → List Worker → Except Err o.Resp × List Worker
  | .upsertWorkerHeartbeat worker, rows => (.ok (), Tasks.upsertWorkerHeartbeat worker rows)
  | .listWorkers orgID, rows => (.ok (Tasks.listWorkers orgID rows), rows)

inductive BrokerOp where
  | enqueue (orgID : UUID) (queue : String) (id : UUID) (priority : Int)
  | dequeue (orgID : UUID) (queue : String)
  | ack (orgID : UUID) (queue : String) (id : UUID)
  | nack (orgID : UUID) (queue : String) (id : UUID) (delay : Duration)
  | enqueueDelayed (orgID : UUID) (queue : String) (id : UUID) (priority : Int) (delay : Duration)
  | moveToDeadLetter (orgID : UUID) (queue : String) (id : UUID)
  | promoteDueDelayed (orgID : UUID) (queue : String)
  | remove (orgID : UUID) (queue : String) (id : UUID)
  | queueDepth (orgID : UUID) (queue : String)

@[reducible] def BrokerOp.Resp : BrokerOp → Type
  | .dequeue _ _ => UUID
  | .promoteDueDelayed _ _ | .queueDepth _ _ => Nat
  | .enqueue _ _ _ _ | .ack _ _ _ | .nack _ _ _ _ | .enqueueDelayed _ _ _ _ _ | .moveToDeadLetter _ _ _
  | .remove _ _ _ => Unit

/-- The queue whose keys an operation touches. -/
def BrokerOp.scope : BrokerOp → UUID × String
  | .enqueue orgID queue _ _ | .dequeue orgID queue | .ack orgID queue _ | .nack orgID queue _ _
  | .enqueueDelayed orgID queue _ _ _ | .moveToDeadLetter orgID queue _ | .promoteDueDelayed orgID queue
  | .remove orgID queue _ | .queueDepth orgID queue => (orgID, queue)

/-- A dequeued message without a task id is an error, after it was moved. -/
def BrokerOp.runQueue (env : Env) : (o : BrokerOp) → Broker.Queue → Except Err o.Resp × Broker.Queue
  | .enqueue _ _ id priority, q => (.ok (), Broker.enqueue id priority q)
  | .dequeue _ _, q =>
    match Broker.dequeue q with
    | (none, q) => (.error .queueEmpty, q)
    | (some id, q) =>
      if id = UUID.nil then (.error (.other "redis dequeue: invalid task message"), q) else (.ok id, q)
  | .ack _ _ id, q => (.ok (), Broker.ack id q)
  | .nack _ _ id delay, q => (.ok (), Broker.nack id delay env.now q)
  | .enqueueDelayed _ _ id priority delay, q => (.ok (), Broker.enqueueDelayed id priority delay env.now q)
  | .moveToDeadLetter _ _ id, q => (.ok (), Broker.moveToDeadLetter id q)
  | .promoteDueDelayed _ _, q => ((.ok (Broker.promoteDueDelayed env.now q).1), (Broker.promoteDueDelayed env.now q).2)
  | .remove _ _ id, q => (.ok (), Broker.remove id q)
  | .queueDepth _ _, q => (.ok q.pending.length, q)

def BrokerOp.run (env : Env) (o : BrokerOp) (b : Broker.Store) : Except Err o.Resp × Broker.Store :=
  let out := o.runQueue env (b o.scope)
  (out.1, Function.update b o.scope out.2)

inductive HookOp where
  | createWebhookEndpoint (endpoint : WebhookEndpoint)
  | updateWebhookEndpoint (endpoint : WebhookEndpoint)
  | softDeleteWebhookEndpoint (orgID id : UUID) (now : Time)
  | listWebhookEndpoints (orgID : UUID)
  | listWebhookDeliveries (orgID : UUID) (endpointID : Option UUID) (status eventType : String) (after : Cursor)
      (limit : Nat)
  | getWebhookEndpoint (orgID id : UUID)
  | listActiveWebhookEndpointsForEvent (orgID : UUID) (eventType : WebhookEventType)
  | createWebhookDelivery (delivery : WebhookDelivery)
  | getWebhookDelivery (orgID id : UUID)
  | claimDueWebhookDeliveries (now : Time) (limit : Int)
  | updateWebhookDelivery (delivery : WebhookDelivery)
  | retryWebhookDelivery (orgID id : UUID) (now : Time)

@[reducible] def HookOp.Resp : HookOp → Type
  | .getWebhookEndpoint _ _ => WebhookEndpoint
  | .listActiveWebhookEndpointsForEvent _ _ | .listWebhookEndpoints _ => List WebhookEndpoint
  | .createWebhookEndpoint _ | .updateWebhookEndpoint _ | .softDeleteWebhookEndpoint _ _ _
  | .createWebhookDelivery _ | .updateWebhookDelivery _ => Unit
  | .getWebhookDelivery _ _ => WebhookDelivery
  | .claimDueWebhookDeliveries _ _ | .listWebhookDeliveries _ _ _ _ _ _ => List WebhookDelivery
  | .retryWebhookDelivery _ _ _ => Option WebhookDelivery

def HookOp.run (env : Env) : (o : HookOp) → Webhooks.Store → Except Err o.Resp × Webhooks.Store
  | .createWebhookEndpoint endpoint, s => Webhooks.createWebhookEndpoint endpoint s
  | .updateWebhookEndpoint endpoint, s => Webhooks.updateWebhookEndpoint endpoint s
  | .softDeleteWebhookEndpoint orgID id now, s => Webhooks.softDeleteWebhookEndpoint orgID id now s
  | .listWebhookEndpoints orgID, s => (.ok (Webhooks.listWebhookEndpoints orgID s), s)
  | .listWebhookDeliveries orgID endpointID status eventType after limit, s =>
    (.ok (Webhooks.listWebhookDeliveries orgID endpointID status eventType after limit s), s)
  | .getWebhookEndpoint orgID id, s => (Webhooks.getWebhookEndpoint orgID id s, s)
  | .listActiveWebhookEndpointsForEvent orgID eventType, s =>
    (.ok (Webhooks.listActiveWebhookEndpointsForEvent orgID eventType s), s)
  | .createWebhookDelivery delivery, s => Webhooks.createWebhookDelivery delivery s
  | .getWebhookDelivery orgID id, s => (Webhooks.getWebhookDelivery orgID id s, s)
  | .claimDueWebhookDeliveries now limit, s => Webhooks.claimDueWebhookDeliveries now limit env.locked s
  | .updateWebhookDelivery delivery, s => Webhooks.updateWebhookDelivery delivery s
  | .retryWebhookDelivery orgID id now, s =>
    (.ok (Webhooks.retryWebhookDelivery orgID id now s).1, (Webhooks.retryWebhookDelivery orgID id now s).2)

inductive CanvasOp where
  | createWorkflow (workflow : Workflow)
  | getWorkflowByID (orgID id : UUID)
  | getWorkflowBySlug (orgID : UUID) (slug : String)
  | listWorkflows (orgID : UUID) (status : String) (after : Cursor) (limit : Nat)
  | updateWorkflow (workflow : Workflow)
  | softDeleteWorkflow (orgID id : UUID) (now : Time)
  | publishWorkflow (expected : Workflow) (publishedAt : Time) (versionID : UUID)
  | createWorkflowVersion (version : WorkflowVersion)
  | listWorkflowVersions (orgID workflowID : UUID)
  | getWorkflowVersion (orgID workflowID : UUID) (version : Int)
  | getLatestWorkflowVersion (orgID workflowID : UUID)
  | getWorkflowExecutionVersion (orgID workflowID versionID : UUID)
  | getWorkflowExecution (orgID workflowID executionID : UUID)
  | getWorkflowExecutionByIdempotency (orgID : UUID) (idempotencyKey : String)
  | insertWorkflowExecution (execution : WorkflowExecution) (nodes : List WorkflowNodeExecution)
  | getWorkflowNodeExecutions (orgID executionID : UUID)
  | claimWorkflowNode (orgID executionID : UUID) (nodeID : String) (now : Time)
  | updateWorkflowNodeExecution (node : WorkflowNodeExecution) (expected : WorkflowNodeExecutionStatus)
  | updateWorkflowExecution (execution : WorkflowExecution) (expected : List WorkflowExecutionStatus)
  | finalizeWorkflowExecution (execution : WorkflowExecution) (expected : List WorkflowExecutionStatus)
      (cancelOpenNodes : Bool)
  | cancelWorkflowExecution (orgID workflowID executionID : UUID) (now : Time)
  | listWorkflowExecutionsForReconciliation (limit : Int)
  | listWorkflowExecutions (orgID workflowID : UUID) (status : String) (after : Cursor) (limit : Nat)

@[reducible] def CanvasOp.Resp : CanvasOp → Type
  | .createWorkflow _ | .updateWorkflow _ | .softDeleteWorkflow _ _ _ | .createWorkflowVersion _ => Unit
  | .getWorkflowByID _ _ | .getWorkflowBySlug _ _ => Workflow
  | .listWorkflows _ _ _ _ => List Workflow
  | .listWorkflowVersions _ _ => List WorkflowVersionSummary
  | .publishWorkflow _ _ _ | .getWorkflowVersion _ _ _ | .getLatestWorkflowVersion _ _
  | .getWorkflowExecutionVersion _ _ _ => WorkflowVersion
  | .getWorkflowExecution _ _ _ | .getWorkflowExecutionByIdempotency _ _ | .cancelWorkflowExecution _ _ _ _ =>
    WorkflowExecution
  | .insertWorkflowExecution _ _ | .updateWorkflowNodeExecution _ _ | .updateWorkflowExecution _ _
  | .finalizeWorkflowExecution _ _ _ => Bool
  | .getWorkflowNodeExecutions _ _ => List WorkflowNodeExecution
  | .claimWorkflowNode _ _ _ _ => Option WorkflowNodeExecution
  | .listWorkflowExecutionsForReconciliation _ | .listWorkflowExecutions _ _ _ _ _ => List WorkflowExecution

def CanvasOp.run : (o : CanvasOp) → Canvas.Store → Except Err o.Resp × Canvas.Store
  | .createWorkflow workflow, s => Canvas.createWorkflow workflow s
  | .getWorkflowByID orgID id, s => (Canvas.getWorkflowByID orgID id s, s)
  | .getWorkflowBySlug orgID slug, s => (Canvas.getWorkflowBySlug orgID slug s, s)
  | .listWorkflows orgID status after limit, s => (.ok (Canvas.listWorkflows orgID status after limit s), s)
  | .updateWorkflow workflow, s => Canvas.updateWorkflow workflow s
  | .softDeleteWorkflow orgID id now, s => Canvas.softDeleteWorkflow orgID id now s
  | .publishWorkflow expected publishedAt versionID, s => Canvas.publishWorkflow expected publishedAt versionID s
  | .createWorkflowVersion version, s => Canvas.createWorkflowVersion version s
  | .listWorkflowVersions orgID workflowID, s => (.ok (Canvas.listWorkflowVersions orgID workflowID s), s)
  | .getWorkflowVersion orgID workflowID version, s => (Canvas.getWorkflowVersion orgID workflowID version s, s)
  | .getLatestWorkflowVersion orgID workflowID, s => (Canvas.getLatestWorkflowVersion orgID workflowID s, s)
  | .getWorkflowExecutionVersion orgID workflowID versionID, s =>
    (Canvas.getWorkflowExecutionVersion orgID workflowID versionID s, s)
  | .getWorkflowExecution orgID workflowID executionID, s =>
    (Canvas.getWorkflowExecution orgID workflowID executionID s, s)
  | .getWorkflowExecutionByIdempotency orgID key, s => (Canvas.getWorkflowExecutionByIdempotency orgID key s, s)
  | .insertWorkflowExecution execution nodes, s => Canvas.insertWorkflowExecution execution nodes s
  | .getWorkflowNodeExecutions orgID executionID, s => (.ok (Canvas.getWorkflowNodeExecutions orgID executionID s), s)
  | .claimWorkflowNode orgID executionID nodeID now, s =>
    (.ok (Canvas.claimWorkflowNode orgID executionID nodeID now s).1,
      (Canvas.claimWorkflowNode orgID executionID nodeID now s).2)
  | .updateWorkflowNodeExecution node expected, s =>
    (.ok (Canvas.updateWorkflowNodeExecution node expected s).1, (Canvas.updateWorkflowNodeExecution node expected s).2)
  | .updateWorkflowExecution execution expected, s =>
    (.ok (Canvas.updateWorkflowExecution execution expected s).1,
      (Canvas.updateWorkflowExecution execution expected s).2)
  | .finalizeWorkflowExecution execution expected cancelOpenNodes, s =>
    (.ok (Canvas.finalizeWorkflowExecution execution expected cancelOpenNodes s).1,
      (Canvas.finalizeWorkflowExecution execution expected cancelOpenNodes s).2)
  | .cancelWorkflowExecution orgID workflowID executionID now, s =>
    Canvas.cancelWorkflowExecution orgID workflowID executionID now s
  | .listWorkflowExecutionsForReconciliation limit, s =>
    (.ok (Canvas.listWorkflowExecutionsForReconciliation limit s), s)
  | .listWorkflowExecutions orgID workflowID status after limit, s =>
    (.ok (Canvas.listWorkflowExecutions orgID workflowID status after limit s), s)

/-- The statements that write executions or their nodes. -/
def CanvasOp.runs : CanvasOp → Bool
  | .insertWorkflowExecution _ _ | .claimWorkflowNode _ _ _ _ | .updateWorkflowNodeExecution _ _
  | .updateWorkflowExecution _ _ | .finalizeWorkflowExecution _ _ _ | .cancelWorkflowExecution _ _ _ _ => true
  | _ => false

inductive Op where
  | sys (o : SysOp)
  | task (o : TaskOp)
  | worker (o : WorkerOp)
  | broker (o : BrokerOp)
  | hook (o : HookOp)
  | canvas (o : CanvasOp)

@[reducible] def Op.Resp : Op → Type
  | .sys o => o.Resp
  | .task o => o.Resp
  | .worker o => o.Resp
  | .broker o => o.Resp
  | .hook o => o.Resp
  | .canvas o => o.Resp

/-- The answer and the world after an operation that meets no fault. -/
def Op.run (env : Env) : (o : Op) → World → Except Err o.Resp × World
  | .sys o, w => (.ok (o.run env), w)
  | .task o, w => ((o.run env w.tasks).1, { w with tasks := (o.run env w.tasks).2 })
  | .worker o, w => ((o.run w.workers).1, { w with workers := (o.run w.workers).2 })
  | .broker o, w => ((o.run env w.broker).1, { w with broker := (o.run env w.broker).2 })
  | .hook o, w => ((o.run env w.hooks).1, { w with hooks := (o.run env w.hooks).2 })
  | .canvas o, w => ((o.run w.canvas).1, { w with canvas := (o.run w.canvas).2 })

/-- Reading the clock, drawing an id or recording a metric does not meet faults; a store can. -/
def Op.fallible : Op → Bool
  | .sys _ => false
  | _ => true

def Op.exec (env : Env) (o : Op) (w : World) : Except Err o.Resp × World :=
  match env.fault, o.fallible with
  | some (.lost e), true => (.error e, w)
  | some (.unacked e), true => (.error e, (o.run env w).2)
  | _, _ => o.run env w

/-- An operation is lost, or its answer is, or it meets no fault. -/
theorem Op.exec_cases (env : Env) (o : Op) (w : World) :
    (∃ e, env.fault = some (.lost e) ∧ o.exec env w = (.error e, w)) ∨
    (∃ e, env.fault = some (.unacked e) ∧ o.exec env w = (.error e, (o.run env w).2)) ∨
    o.exec env w = o.run env w := by
  unfold Op.exec
  split
  · exact Or.inl ⟨_, ‹_›, rfl⟩
  · exact Or.inr (Or.inl ⟨_, ‹_›, rfl⟩)
  · exact Or.inr (Or.inr rfl)

/-- An operation happens, or it does not. -/
theorem Op.exec_world (env : Env) (o : Op) (w : World) :
    (o.exec env w).2 = w ∨ (o.exec env w).2 = (o.run env w).2 := by
  rcases o.exec_cases env w with ⟨e, -, h⟩ | ⟨e, -, h⟩ | h
  · exact Or.inl (by rw [h])
  · exact Or.inr (by rw [h])
  · exact Or.inr (by rw [h])

/-- What an operation does not touch, it does not touch under faults either. -/
theorem Op.exec_frame {β : Type} (view : World → β) {env : Env} {o : Op} {w : World}
    (h : view (o.run env w).2 = view w) : view (o.exec env w).2 = view w := by
  rcases o.exec_world env w with hw | hw
  · rw [hw]
  · rw [hw, h]

@[simp] theorem Op.exec_sys (env : Env) (o : SysOp) (w : World) : (Op.sys o).exec env w = (.ok (o.run env), w) := by
  cases hf : env.fault with
  | none => simp [Op.exec, Op.fallible, hf, Op.run]
  | some f => cases f <;> simp [Op.exec, Op.fallible, hf, Op.run]

theorem Op.exec_calm {env : Env} (calm : env.fault = none) (o : Op) (w : World) : o.exec env w = o.run env w := by
  simp [Op.exec, calm]

/-- A response is the response of an operation that met no fault. -/
theorem Op.exec_ok {env : Env} {o : Op} {w : World} {a : o.Resp} (ok : (o.exec env w).1 = .ok a) :
    o.exec env w = o.run env w := by
  rcases o.exec_cases env w with ⟨e, -, h⟩ | ⟨e, -, h⟩ | h
  · rw [h] at ok
    cases ok
  · rw [h] at ok
    cases ok
  · exact h

abbrev machine : Machine where
  Op := Op
  Resp := Op.Resp
  Err := Err
  World := World
  Env := Env
  exec := Op.exec

/-- A program of the services. -/
abbrev Script (α : Type) := Prog machine.toSignature α

namespace Script

/-- Call an operation and fail with its error. -/
abbrev sys (o : SysOp) : Script o.Resp := Prog.perform (S := machine.toSignature) (.sys o)
abbrev task (o : TaskOp) : Script o.Resp := Prog.perform (S := machine.toSignature) (.task o)
abbrev worker (o : WorkerOp) : Script o.Resp := Prog.perform (S := machine.toSignature) (.worker o)
abbrev broker (o : BrokerOp) : Script o.Resp := Prog.perform (S := machine.toSignature) (.broker o)
abbrev hook (o : HookOp) : Script o.Resp := Prog.perform (S := machine.toSignature) (.hook o)
abbrev canvas (o : CanvasOp) : Script o.Resp := Prog.perform (S := machine.toSignature) (.canvas o)

/-- Call an operation and take its error as a value. -/
abbrev tryTask (o : TaskOp) : Script (Except Err o.Resp) := Prog.attempt (S := machine.toSignature) (.task o)
abbrev tryBroker (o : BrokerOp) : Script (Except Err o.Resp) := Prog.attempt (S := machine.toSignature) (.broker o)
abbrev tryHook (o : HookOp) : Script (Except Err o.Resp) := Prog.attempt (S := machine.toSignature) (.hook o)
abbrev tryCanvas (o : CanvasOp) : Script (Except Err o.Resp) := Prog.attempt (S := machine.toSignature) (.canvas o)

abbrev fail {α : Type} (e : Err) : Script α := Prog.fail (S := machine.toSignature) e

/-- `time.Now`. -/
abbrev now : Script Time := sys .now

/-- `uuid.New`. -/
abbrev newUUID : Script UUID := sys .newUUID

/-- `metrics.Record`. -/
abbrev record (event : NewMetricEventInput) : Script Unit := sys (.record event)

end Script

end Windylane
