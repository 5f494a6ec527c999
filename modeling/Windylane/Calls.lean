import Windylane.Service.Engine
import Windylane.Service.Executions
import Windylane.Service.Webhooks
import Windylane.Service.Workflows

/-! The system: any number of processes, each serving one request on the machine. A request is a call of a
    service, the way of one message through a worker pool, or one turn of a background loop. -/

namespace Windylane

open Conc

/-- Calls that only read. -/
inductive Query where
  | getTask (orgID id : UUID)
  | listTasks (orgID : UUID) (filter : TaskFilter)
  | listDLQ (orgID : UUID) (queue cursor : String) (limit : Int)
  | queueStats (orgID : UUID) (queue : String)
  | listWorkers (orgID : UUID)
  | getDelivery (orgID id : UUID)
  | listDeliveries (orgID : UUID) (filter : WebhookDeliveryFilter)
  | getEndpoint (orgID id : UUID)
  | listEndpoints (orgID : UUID)
  | getWorkflow (orgID id : UUID)
  | listWorkflows (orgID : UUID) (filter : WorkflowFilter)
  | validateWorkflow (orgID id : UUID)
  | getWorkflowVersion (orgID workflowID : UUID) (version : Int)
  | listWorkflowVersions (orgID workflowID : UUID)
  | getExecution (orgID workflowID executionID : UUID)
  | listExecutions (orgID workflowID : UUID) (filter : WorkflowExecutionFilter)

/-- Calls that edit workflows. -/
inductive Edit where
  | createWorkflow (input : CreateWorkflowInput)
  | updateWorkflow (orgID id : UUID) (input : UpdateWorkflowInput)
  | deleteWorkflow (orgID id : UUID)
  | publishWorkflow (orgID id : UUID)

/-- Calls that edit endpoints. -/
inductive EndpointEdit where
  | createEndpoint (input : CreateWebhookEndpointInput)
  | updateEndpoint (orgID id : UUID) (input : UpdateWebhookEndpointInput)
  | deleteEndpoint (orgID id : UUID)
  | rotateSecret (orgID id : UUID)

inductive Request where
  | query (query : Query)
  | edit (edit : Edit)
  | endpoint (edit : EndpointEdit)
  | workerHeartbeat (worker : Worker)
  | startExecution (input : StartWorkflowExecutionInput)
  | advanceExecution (orgID workflowID executionID : UUID)
  | cancelExecution (orgID workflowID executionID : UUID)
  | reconcileActive (limit : Int)
  | createTask (input : CreateTaskInput)
  | retryTask (orgID id : UUID)
  | cancelTask (orgID id : UUID)
  | softDeleteTask (orgID id : UUID)
  | dispatch (orgID : UUID) (queue workerID : String)
  | heartbeat (orgID taskID : UUID) (workerID : String) (visibilityTimeout : Duration)
  | reclaim (orgID : UUID) (queue : String)
  | promotion (orgID : UUID) (queue : String)
  | reconciliation (orgID : UUID) (queue : String)
  | processDue
  | retryDelivery (orgID id : UUID)

/-- The requests that the workflow execution service serves. -/
def Request.workflow : Request → Bool
  | .startExecution _ | .advanceExecution _ _ _ | .cancelExecution _ _ _ | .reconcileActive _ => true
  | _ => false

/-- What a query answers. -/
inductive Answer where
  | task (task : Task)
  | tasks (page : Page Task)
  | stats (stats : QueueStats)
  | workers (workers : List Worker)
  | delivery (delivery : WebhookDelivery)
  | deliveries (page : Page WebhookDelivery)
  | endpoint (endpoint : WebhookEndpoint)
  | endpoints (endpoints : List WebhookEndpoint)
  | workflow (workflow : Workflow)
  | workflows (page : Page Workflow)
  | validation (result : WorkflowValidationResult)
  | version (version : WorkflowVersion)
  | versions (versions : List WorkflowVersionSummary)
  | execution (detail : WorkflowExecutionDetail)
  | executions (page : Page WorkflowExecution)

/-- What a request answers. -/
inductive Outcome where
  | answer (answer : Answer)
  | workflow (workflow : Workflow)
  | published (result : Except WorkflowValidationResult WorkflowPublishResult)
  | endpoint (endpoint : WebhookEndpoint)
  | created (endpoint : WebhookEndpoint) (secret : String)
  | secret (secret : String)
  | unit
  | error (err : Option Err)
  | task (result : TaskResult)
  | delivery (delivery : WebhookDelivery)
  | execution (execution : WorkflowExecution)
  | started (result : WorkflowExecutionStartResult) (reused : Bool)

def queryBody (h : Host) : Query → Script Answer
  | .getTask orgID id => do
    let task ← getTask orgID id
    pure (.task task)
  | .listTasks orgID filter => do
    let page ← listTasks h orgID filter
    pure (.tasks page)
  | .listDLQ orgID queue cursor limit => do
    let page ← listDLQ h orgID queue cursor limit
    pure (.tasks page)
  | .queueStats orgID queue => do
    let stats ← queueStats orgID queue
    pure (.stats stats)
  | .listWorkers orgID => do
    let workers ← listWorkers orgID
    pure (.workers workers)
  | .getDelivery orgID id => do
    let delivery ← getDelivery orgID id
    pure (.delivery delivery)
  | .listDeliveries orgID filter => do
    let page ← listDeliveries h orgID filter
    pure (.deliveries page)
  | .getEndpoint orgID id => do
    let endpoint ← getEndpoint orgID id
    pure (.endpoint endpoint)
  | .listEndpoints orgID => do
    let endpoints ← listEndpoints orgID
    pure (.endpoints endpoints)
  | .getWorkflow orgID id => do
    let workflow ← getWorkflow orgID id
    pure (.workflow workflow)
  | .listWorkflows orgID filter => do
    let page ← listWorkflows h orgID filter
    pure (.workflows page)
  | .validateWorkflow orgID id => do
    let result ← validateWorkflow h orgID id
    pure (.validation result)
  | .getWorkflowVersion orgID workflowID version => do
    let version ← getWorkflowVersion orgID workflowID version
    pure (.version version)
  | .listWorkflowVersions orgID workflowID => do
    let versions ← listWorkflowVersions orgID workflowID
    pure (.versions versions)
  | .getExecution orgID workflowID executionID => do
    let detail ← getExecution orgID workflowID executionID
    pure (.execution detail)
  | .listExecutions orgID workflowID filter => do
    let page ← listExecutions h orgID workflowID filter
    pure (.executions page)

def editBody (h : Host) : Edit → Script Outcome
  | .createWorkflow input => do
    let workflow ← createWorkflow h input
    pure (.workflow workflow)
  | .updateWorkflow orgID id input => do
    let workflow ← updateWorkflow h orgID id input
    pure (.workflow workflow)
  | .deleteWorkflow orgID id => do
    deleteWorkflow orgID id
    pure .unit
  | .publishWorkflow orgID id => do
    let result ← publishWorkflow h orgID id
    pure (.published result)

def endpointBody (h : Host) : EndpointEdit → Script Outcome
  | .createEndpoint input => do
    let (endpoint, secret) ← createEndpoint h input
    pure (.created endpoint secret)
  | .updateEndpoint orgID id input => do
    let endpoint ← updateEndpoint h orgID id input
    pure (.endpoint endpoint)
  | .deleteEndpoint orgID id => do
    deleteEndpoint orgID id
    pure .unit
  | .rotateSecret orgID id => do
    let secret ← rotateSecret h orgID id
    pure (.secret secret)

/-- The program that serves a request. -/
def body (h : Host) : Request → Script Outcome
  | .query query => do
    let answer ← queryBody h query
    pure (.answer answer)
  | .edit edit => editBody h edit
  | .endpoint edit => endpointBody h edit
  | .workerHeartbeat worker => do
    workerHeartbeat worker
    pure .unit
  | .startExecution input => do
    let (result, reused) ← startExecution h input
    pure (.started result reused)
  | .advanceExecution orgID workflowID executionID => do
    advanceExecution h orgID workflowID executionID
    pure .unit
  | .cancelExecution orgID workflowID executionID => do
    let execution ← cancelExecution orgID workflowID executionID
    pure (.execution execution)
  | .reconcileActive limit => do
    reconcileActive h limit
    pure .unit
  | .createTask input => do
    let result ← createTask h input
    pure (.task result)
  | .retryTask orgID id => do
    let result ← retryTask orgID id
    pure (.task result)
  | .cancelTask orgID id => do
    let result ← cancelTask h orgID id
    pure (.task result)
  | .softDeleteTask orgID id => do
    let err ← softDeleteTask orgID id
    pure (.error err)
  | .dispatch orgID queue workerID => do
    dispatch h orgID queue workerID
    pure .unit
  | .heartbeat orgID taskID workerID visibilityTimeout => do
    heartbeatTick orgID taskID workerID visibilityTimeout
    pure .unit
  | .reclaim orgID queue => do
    reclaimTick orgID queue
    pure .unit
  | .promotion orgID queue => do
    promotionTick orgID queue
    pure .unit
  | .reconciliation orgID queue => do
    reconciliationTick orgID queue
    pure .unit
  | .processDue => do
    processDue h
    pure .unit
  | .retryDelivery orgID id => do
    let delivery ← retryDelivery orgID id
    pure (.delivery delivery)

abbrev State := System machine Request Outcome

/-- States reached from `w` by actions that `allow` permits. -/
abbrev Reachable (h : Host) (allow : State → Action machine Request → Prop) (w : World) (s : State) : Prop :=
  System.Reach (body h) allow (System.init w) s

/-- Every action, with every crash and every fault. -/
def anything (_ : State) (_ : Action machine Request) : Prop := True

/-- A world in which nothing was started yet: workflows and their versions are stored, and endpoints. -/
structure World.Fresh (w : World) : Prop where
  tasks : w.tasks = []
  broker : ∀ scope, w.broker scope = Broker.Queue.empty
  deliveries : w.hooks.deliveries = []
  executions : w.canvas.executions = []
  nodes : w.canvas.nodes = []
  /-- The primary key of the versions. -/
  versions : (w.canvas.versions.map (·.id)).Nodup

/-- Every stored version is of a definition that the validator accepts. -/
def World.Published (h : Host) (w : World) : Prop :=
  ∀ v ∈ w.canvas.versions, (validateWorkflowDefinition h.uuidParse v.definition).valid = true

/-! ### A small installation, to run the system on -/

def sampleHost : Host where
  uuidParse := fun _ => some ⟨9⟩
  newSHA1 := fun _ => ⟨8⟩
  sha256 := fun text => text
  marshal := fun _ => ""
  formatTime := fun _ => ""
  decrypt := fun text => .ok text
  sign := fun _ _ _ => ""
  parseRequestURI := fun text => some ⟨"https", text, text⟩
  isLoopback := fun _ => false
  toLower := fun text => text
  equalFold := fun a b => a = b
  isLetterOrDigit := fun c => c.isAlphanum
  decodeDefinition := fun _ => some ⟨some [], some []⟩
  encodeCursor := fun _ => ""
  decodeCursor := fun _ => none
  retryPolicy := ⟨seconds 1, seconds 60, 2⟩
  webhookMaxAttempts := 3
  webhookBatchSize := 10
  webhookInitialBackoff := seconds 1
  webhookMaxBackoff := seconds 60
  allowInsecureLocal := false

/-- A step without faults at time `now`, in which a fresh id is `fresh` and the job handler succeeds. -/
def sampleEnv (now : Time) (fresh : UUID) : Env where
  now := now
  dbNow := now
  fresh := fresh
  locked := []
  fault := none
  reply := .ok ⟨200, ""⟩
  handler := none
  secret := .ok "secret"
  encrypt := fun secret => .ok secret

/-- Steps of one process, with the fresh ids they draw. -/
def steps (pid : Nat) (now : Time) (fresh : List (BitVec 128)) : List (Action machine Request) :=
  fresh.map fun id => .step pid (sampleEnv now ⟨id⟩)

/-- Ids that are all different. -/
def idsFrom (first count : Nat) : List (BitVec 128) := (List.range count).map fun i => BitVec.ofNat 128 (first + i)

/-- No crash, and no fault. -/
def Calm : Action machine Request → Prop
  | .spawn _ => True
  | .step _ env => env.fault = none
  | .crash _ => False

theorem steps_calm {pid : Nat} {now : Time} {fresh : List (BitVec 128)} {a : Action machine Request}
    (h : a ∈ steps pid now fresh) : Calm a := by
  obtain ⟨id, -, rfl⟩ := List.mem_map.1 h
  rfl

/-- An endpoint that listens to new tasks. -/
def sampleEndpoint : WebhookEndpoint where
  id := ⟨5⟩
  orgID := ⟨1⟩
  name := "hooks"
  url := "https://hooks.test"
  secretHash := ""
  secretCiphertext := ""
  eventTypes := [.taskCreated]
  isActive := true
  deletedAt := none
  createdAt := 0
  updatedAt := 0

/-- A world in which nothing was started, with one endpoint and the given versions. -/
def sampleWorld (workflows : List Workflow) (versions : List WorkflowVersion) : World where
  tasks := []
  workers := []
  broker := fun _ => Broker.Queue.empty
  hooks := ⟨[sampleEndpoint], []⟩
  canvas := ⟨workflows, versions, [], []⟩

def sampleTask : CreateTaskInput where
  orgID := ⟨1⟩
  idempotencyKey := "k"
  queue := "jobs"
  payload := .json .null
  priority := 0
  maxRetries := 0
  timeout := seconds 60
  visibilityTimeout := seconds 30
  scheduledAt := none
  backoffStrategy := "fixed"
  traceID := ""

/-- A gate that asks whether the input has a member, and a task behind its true branch. -/
def sampleDefinition : WorkflowDefinition where
  nodes := some [
    ⟨"start", .trigger, "", some []⟩,
    ⟨"gate", .condition, "", some [("field", .str "input.go"), ("operator", .str "exists")]⟩,
    ⟨"work", .task, "", some [("queue", .str "jobs")]⟩]
  edges := some [
    ⟨"e1", "start", "gate", .empty⟩,
    ⟨"e2", "gate", "work", .json (.obj [("branch", .bool true)])⟩]

def sampleVersion : WorkflowVersion where
  id := ⟨3⟩
  orgID := ⟨1⟩
  workflowID := ⟨2⟩
  version := 1
  name := "gate"
  slug := "gate"
  description := none
  definition := sampleDefinition
  status := .published
  publishedAt := 0
  createdAt := 0

def sampleWorkflow : Workflow where
  id := ⟨2⟩
  orgID := ⟨1⟩
  name := "gate"
  slug := "gate"
  description := none
  status := .published
  definition := sampleDefinition
  createdAt := 0
  updatedAt := 0
  deletedAt := none

def sampleStart (input : RawMessage) : StartWorkflowExecutionInput where
  orgID := ⟨1⟩
  workflowID := ⟨2⟩
  version := none
  input := input
  idempotencyKey := "k"

/-- The world with the workflow. -/
def gateWorld : World := sampleWorld [sampleWorkflow] [sampleVersion]

theorem gateWorld_fresh : gateWorld.Fresh :=
  ⟨rfl, fun _ => rfl, rfl, rfl, rfl, List.nodup_singleton _⟩

end Windylane
