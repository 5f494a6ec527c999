import Windylane.NodeConfig
import Windylane.Service.Tasks

/-! The workflow execution service and its dispatchers, after `internal/usecase/workflow_execution_service.go`
    and `workflow_dispatchers.go`. The source passes the execution by pointer and changes it on the way; here
    the functions that change it answer it. -/

namespace Windylane

open Script

def maxWorkflowExecutionInputBytes : Nat := 256 * 1024

def workflowNodeDispatchRecoveryAfter : Duration := seconds 30

/-! ### Metrics -/

def executionMetric (execution : WorkflowExecution) (eventType : MetricEventType) (errorCode : String) :
    NewMetricEventInput where
  organizationID := execution.orgID
  source := .taskCanvas
  eventType := eventType
  resourceType := .workflowExecution
  resourceID := execution.id
  queue := ""
  status := execution.status.text
  durationMS := none
  occurredAt := execution.updatedAt
  attempt := none
  maxAttempts := none
  errorCode := errorCode
  transitionKey := eventType.text

def nodeMetric (node : WorkflowNodeExecution) (eventType : MetricEventType) (errorCode : String) :
    NewMetricEventInput where
  organizationID := node.orgID
  source := .taskCanvas
  eventType := eventType
  resourceType := .nodeExecution
  resourceID := node.id
  queue := ""
  status := node.status.text
  durationMS := none
  occurredAt := node.updatedAt
  attempt := some node.attempt
  maxAttempts := none
  errorCode := errorCode
  transitionKey := eventType.text

/-- The metric events of the nodes that closing an execution cancelled. -/
def recordCancelled : List WorkflowNodeExecution → Script Unit
  | [] => pure ()
  | node :: rest => do
    if node.status = .cancelled then record (nodeMetric node .nodeExecutionCancelled "")
    recordCancelled rest

/-! ### Dispatchers -/

/-- The idempotency key of a node's task. -/
def workflowTaskKey (executionID : UUID) (nodeID : String) : String :=
  "workflow:" ++ executionID.text ++ ":" ++ nodeID

/-- `DispatchWorkflowTask`. -/
def dispatchWorkflowTask (h : Host) (orgID executionID : UUID) (nodeID : String) (config : Option (List (String × Json)))
    (executionInput : RawMessage) : Script TaskResult :=
  match parseWorkflowTaskConfig config with
  | .error _ => pure ⟨none, false, some .invalidInput⟩
  | .ok parsed =>
    let payload := if parsed.payload.isEmpty then executionInput else parsed.payload
    let payload := if payload.isEmpty then .json (.obj []) else payload
    let timeout := seconds parsed.timeoutSeconds
    createTask h {
      orgID := orgID
      idempotencyKey := workflowTaskKey executionID nodeID
      queue := parsed.queue
      payload := payload
      priority := parsed.priority
      maxRetries := parsed.maxRetries
      timeout := if timeout = 0 then seconds 60 else timeout
      visibilityTimeout := seconds 30
      scheduledAt := none
      backoffStrategy := "exponential"
      traceID := executionID.text }

/-- `domain.WorkflowWebhookPayload` as JSON; an empty input is left out. -/
def workflowWebhookPayload (h : Host) (eventID : UUID) (now : Time) (execution : WorkflowExecution) (nodeID : String)
    (input : RawMessage) : Json :=
  .obj ([
    ("event_id", .str eventID.text),
    ("event_type", .str WebhookEventType.workflowNode.text),
    ("created_at", .str (h.formatTime now)),
    ("org_id", .str execution.orgID.text),
    ("workflow_id", .str execution.workflowID.text),
    ("workflow_execution_id", .str execution.id.text),
    ("node_id", .str nodeID)] ++
    match input with
    | .json value => [("input", value)]
    | _ => [])

/-- What a webhook dispatch answers: the delivery, or the text of the error. -/
abbrev DeliveryResult := Except Err WebhookDelivery

/-- `DispatchWorkflowWebhook`. The delivery id is a function of execution and node, so a delivery that is there
    already is found again. -/
def dispatchWorkflowWebhook (h : Host) (execution : WorkflowExecution) (node : WorkflowNode)
    (executionInput : RawMessage) : Script DeliveryResult :=
  match parseWorkflowWebhookConfig node.config with
  | .error _ => pure (.error .invalidInput)
  | .ok config =>
    match h.uuidParse config.endpointID with
    | none => pure (.error .invalidInput)
    | some endpointID => do
      match ← tryHook (.getWebhookEndpoint execution.orgID endpointID) with
      | .error e => pure (.error e)
      | .ok endpoint =>
        if !endpoint.isActive then pure (.error .invalidStateTransition)
        else
          let deliveryID := h.newSHA1 (execution.id.text ++ ":" ++ node.id)
          match ← tryHook (.getWebhookDelivery execution.orgID deliveryID) with
          | .ok existing => pure (.ok existing)
          | .error _ =>
            let input := if config.payload.isEmpty then executionInput else config.payload
            let now ← now
            let eventID ← newUUID
            let delivery := newDelivery deliveryID execution.orgID endpointID .workflowNode
              (workflowWebhookPayload h eventID now execution node.id input) h.maxAttempts now
            match ← tryHook (.createWebhookDelivery delivery) with
            | .ok _ =>
              record (deliveryCreated delivery)
              pure (.ok delivery)
            | .error e =>
              match ← tryHook (.getWebhookDelivery execution.orgID deliveryID) with
              | .ok existing => pure (.ok existing)
              | .error e' => pure (.error (e.join e'))

/-! ### Readiness -/

/-- The map `nodeStates`: the last row with the id. -/
def stateOf (nodes : List WorkflowNodeExecution) (id : String) : Option WorkflowNodeExecution :=
  nodes.reverse.find? fun n => n.nodeID = id

/-- The map `definitionNodes`. -/
def WorkflowDefinition.node? (d : WorkflowDefinition) (id : String) : Option WorkflowNode :=
  d.nodeList.reverse.find? fun n => n.id = id

/-- The map `incoming`. -/
def WorkflowDefinition.incoming (d : WorkflowDefinition) (id : String) : List WorkflowEdge :=
  d.edgeList.filter fun e => e.target = id

/-- `workflowConditionResult`. A missing or null result is false, as for any boolean field. -/
def workflowConditionResult (output : RawMessage) : Except Err Bool :=
  let assign (value : Bool) (_ : String) : Json → Decoded Bool
    | .bool b => .ok b
    | .null => .ok value
    | v => .error ("json: cannot unmarshal " ++ v.kind ++ " into Go struct field .result of type bool")
  match output with
  | .json (.obj members) =>
    match decodeMembers false ["result"] assign members false none with
    | .ok result => .ok result
    | .error e => .error (.other e)
  | .json .null => .ok false
  | .json v => .error (.other ("json: cannot unmarshal " ++ v.kind ++ " into Go value of type struct"))
  | _ => .error (.other "unexpected end of JSON input")

inductive Readiness where
  | waiting | runnable | shouldSkip
deriving DecidableEq

/-- The loop of `workflowNodeReadiness` over the incoming edges, with the count of active ones. -/
def readinessLoop (d : WorkflowDefinition) (states : List WorkflowNodeExecution) :
    List WorkflowEdge → Nat → Except Err Readiness
  | [], active => .ok (if active = 0 then .shouldSkip else .runnable)
  | edge :: rest, active =>
    match stateOf states edge.source with
    | none => .ok .waiting
    | some source =>
      if !source.status.terminal then .ok .waiting
      else if source.status = .failed ∨ source.status = .cancelled then .ok .waiting
      else if source.status = .skipped then readinessLoop d states rest active
      else if (d.node? edge.source).map (·.type) = some .condition then
        match parseWorkflowBranch edge.condition with
        | .error e => .error (.other e)
        | .ok none => readinessLoop d states rest (active + 1)
        | .ok (some branch) =>
          match workflowConditionResult source.output with
          | .error e => .error e
          | .ok result => readinessLoop d states rest (if result ≠ branch then active else active + 1)
      else readinessLoop d states rest (active + 1)

/-- `workflowNodeReadiness`. The pair of booleans the source returns is one of the three cases. -/
def workflowNodeReadiness (d : WorkflowDefinition) (states : List WorkflowNodeExecution) (node : WorkflowNode) :
    Except Err Readiness :=
  if node.type = .trigger then .ok .runnable
  else if (d.incoming node.id).isEmpty then .ok .waiting
  else readinessLoop d states (d.incoming node.id) 0

/-! ### Changing executions and nodes -/

/-- `updateNode`. -/
def updateNode (node : WorkflowNodeExecution) (expected : WorkflowNodeExecutionStatus) : Script Bool := do
  let updated ← canvas (.updateWorkflowNodeExecution node expected)
  if updated then
    match node.status with
    | .succeeded => record (nodeMetric node .nodeExecutionSucceeded "")
    | .failed => record (nodeMetric node .nodeExecutionFailed node.errorCode)
    | .skipped => record (nodeMetric node .nodeExecutionSkipped "")
    | .cancelled => record (nodeMetric node .nodeExecutionCancelled "")
    | _ => pure ()
  pure updated

/-- `failExecution`. -/
def failExecution (execution : WorkflowExecution) (code message : String) : Script WorkflowExecution := do
  let now ← now
  let execution := { execution with
    status := .failed
    errorCode := code
    errorMessage := message
    completedAt := some now
    updatedAt := now }
  let updated ← canvas (.finalizeWorkflowExecution execution [.pending, .running] true)
  if updated then
    record (executionMetric execution .workflowExecutionFailed code)
    match ← tryCanvas (.getWorkflowNodeExecutions execution.orgID execution.id) with
    | .ok nodes => recordCancelled nodes
    | .error _ => pure ()
  pure execution

/-- `failClaimedNode`. -/
def failClaimedNode (execution : WorkflowExecution) (node : WorkflowNodeExecution) (code message : String) :
    Script WorkflowExecution := do
  let now ← now
  let node := { node with
    status := .failed
    errorCode := code
    errorMessage := message
    completedAt := some now
    updatedAt := now }
  let _ ← updateNode node .running
  failExecution execution code message

/-- `executeClaimedNode`, for the node the caller holds the claim of. -/
def executeClaimedNode (h : Host) (execution : WorkflowExecution) (definitionNode : WorkflowNode)
    (node : WorkflowNodeExecution) : Script WorkflowExecution := do
  let node := { node with input := execution.input }
  let now ← now
  let settle (node : WorkflowNodeExecution) : Script WorkflowExecution := do
    let _ ← updateNode { node with updatedAt := now } .running
    pure execution
  match definitionNode.type with
  | .trigger => settle { node with status := .succeeded, output := execution.input, completedAt := some now }
  | .condition =>
    match parseWorkflowConditionConfig definitionNode.config with
    | .error e => failClaimedNode execution node "invalid_node_config" e
    | .ok config =>
      match evaluateWorkflowCondition config execution.input with
      | .error e => failClaimedNode execution node "node_execution_failed" e
      | .ok result =>
        settle { node with
          status := .succeeded
          output := .json (.obj [("result", .bool result)])
          completedAt := some now }
  | .delay =>
    match parseWorkflowDelayConfig definitionNode.config with
    | .error e => failClaimedNode execution node "invalid_node_config" e
    | .ok config =>
      settle { node with status := .queued, availableAt := some (now + seconds config.durationSeconds) }
  | .task =>
    let result ← dispatchWorkflowTask h execution.orgID execution.id definitionNode.id definitionNode.config
      execution.input
    match result.task with
    | none =>
      failClaimedNode execution node "node_dispatch_failed"
        (match result.err with
          | some e => e.message
          | none => "QueueFlow task dispatch failed")
    | some task => settle { node with status := .queued, queueTaskID := some task.id }
  | .webhook =>
    match ← dispatchWorkflowWebhook h execution definitionNode execution.input with
    | .error e => failClaimedNode execution node "node_dispatch_failed" e.message
    | .ok delivery => settle { node with status := .queued, webhookDeliveryID := some delivery.id }
  | .other _ => failClaimedNode execution node "invalid_node_config" "unsupported node type"

/-! ### Reconciling external work -/

/-- The node as its task says it is. -/
def mirrorTask (node : WorkflowNodeExecution) (task : Task) (now : Time) : WorkflowNodeExecution :=
  let node := { node with attempt := task.attempts }
  match task.status with
  | .pending => { node with status := .queued }
  | .processing => { node with status := .running }
  | .completed =>
    { node with
      status := .succeeded
      output := .json (.obj [("task_id", .str task.id.text)])
      completedAt := some now }
  | .failed | .deadLetter | .cancelled =>
    { node with
      status := .failed
      errorCode := "node_execution_failed"
      errorMessage := if task.lastError = "" then "QueueFlow task did not complete successfully" else task.lastError
      completedAt := some now }

/-- The node as its delivery says it is. -/
def mirrorDelivery (node : WorkflowNodeExecution) (delivery : WebhookDelivery) (now : Time) : WorkflowNodeExecution :=
  let node := { node with attempt := delivery.attemptCount }
  match delivery.status with
  | .pending | .retrying => { node with status := .queued }
  | .delivering => { node with status := .running }
  | .delivered =>
    { node with
      status := .succeeded
      output := .json (.obj [("webhook_delivery_id", .str delivery.id.text)])
      completedAt := some now }
  | .failed =>
    { node with
      status := .failed
      errorCode := "node_execution_failed"
      errorMessage := delivery.lastError.getD "EventForge delivery failed"
      completedAt := some now }

/-- A delay whose time has come. -/
def resumeDelay (h : Host) (node : WorkflowNodeExecution) (availableAt now : Time) : WorkflowNodeExecution :=
  if availableAt ≤ now then
    { node with
      status := .succeeded
      output := .json (.obj [("resumed_at", .str (h.formatTime now))])
      completedAt := some now }
  else node

/-- Store what was observed of a node, when it differs from the row read. The answer is whether it was stored. -/
def storeObserved (row node : WorkflowNodeExecution) (now : Time) : Script Bool :=
  if node.status ≠ row.status ∨ node.attempt ≠ row.attempt ∨ node.completedAt.isSome then
    updateNode { node with updatedAt := now } row.status
  else pure false

/-- The loop body of `reconcileExternalNodes` for one open node: whether something changed, and the execution. -/
def reconcileNode (h : Host) (definition : WorkflowDefinition) (execution : WorkflowExecution)
    (node : WorkflowNodeExecution) : Script (Bool × WorkflowExecution) := do
  let now ← now
  match node.queueTaskID, node.webhookDeliveryID, node.availableAt with
  | some taskID, _, _ =>
    match ← tryTask (.getByID execution.orgID taskID) with
    | .error .taskNotFound => pure (false, execution)
    | .error e => fail e
    | .ok task =>
      let updated ← storeObserved node (mirrorTask node task now) now
      pure (updated, execution)
  | none, some deliveryID, _ =>
    match ← tryHook (.getWebhookDelivery execution.orgID deliveryID) with
    | .error .webhookDeliveryNotFound => pure (false, execution)
    | .error e => fail e
    | .ok delivery =>
      let updated ← storeObserved node (mirrorDelivery node delivery now) now
      pure (updated, execution)
  | none, none, availableAt =>
    match (if node.nodeType = .delay then availableAt else none) with
    | some availableAt =>
      let updated ← storeObserved node (resumeDelay h node availableAt now) now
      pure (updated, execution)
    | none =>
      if node.status = .running then
        if now - node.updatedAt < workflowNodeDispatchRecoveryAfter then pure (false, execution)
        else
          match definition.node? node.nodeID with
          | none => fail .invalidInput
          | some definitionNode =>
            sys (.recovery execution.id node.nodeID)
            let execution ← executeClaimedNode h execution definitionNode node
            pure (true, execution)
      else
        let updated ← storeObserved node node now
        pure (updated, execution)

/-- `reconcileExternalNodes`. -/
def reconcileExternalNodes (h : Host) (definition : WorkflowDefinition) :
    List WorkflowNodeExecution → Bool → WorkflowExecution → Script (Bool × WorkflowExecution)
  | [], changed, execution => pure (changed, execution)
  | node :: rest, changed, execution =>
    if node.status = .queued ∨ node.status = .running then do
      let (updated, execution) ← reconcileNode h definition execution node
      reconcileExternalNodes h definition rest (changed || updated) execution
    else reconcileExternalNodes h definition rest changed execution

/-! ### Scheduling -/

/-- `scheduleRunnableNodes`, over the definition nodes that are left: the first node that is ready and whose
    claim is won is skipped or executed. -/
def scheduleRunnableNodes (h : Host) (definition : WorkflowDefinition) (nodes : List WorkflowNodeExecution)
    (execution : WorkflowExecution) : List WorkflowNode → Script (Bool × WorkflowExecution)
  | [] => pure (false, execution)
  | definitionNode :: rest =>
    if (stateOf nodes definitionNode.id).map (·.status) = some .pending then
      match workflowNodeReadiness definition nodes definitionNode with
      | .error e => fail e
      | .ok .waiting => scheduleRunnableNodes h definition nodes execution rest
      | .ok ready => do
        let now ← now
        match ← canvas (.claimWorkflowNode execution.orgID execution.id definitionNode.id now) with
        | none => scheduleRunnableNodes h definition nodes execution rest
        | some claimed =>
          record (nodeMetric claimed .nodeExecutionStarted "")
          if ready = .shouldSkip then
            let now ← Script.now
            let _ ← updateNode { claimed with status := .skipped, completedAt := some now, updatedAt := now } .running
            pure (true, execution)
          else
            let execution ← executeClaimedNode h execution definitionNode claimed
            pure (true, execution)
    else scheduleRunnableNodes h definition nodes execution rest

/-! ### Finalizing -/

/-- `touchRunningExecution`. -/
def touchRunningExecution (execution : WorkflowExecution) : Script Unit := do
  let now ← now
  let _ ← canvas (.updateWorkflowExecution { execution with status := .running, updatedAt := now } [.running])

/-- The map `outputs` as JSON; `none` when an output is not valid JSON. -/
def collectOutputs : List WorkflowNodeExecution → List (String × Json) → Option (List (String × Json))
  | [], outputs => some outputs
  | node :: rest, outputs =>
    match node.output with
    | .empty => collectOutputs rest outputs
    | .json value => collectOutputs rest (Json.setMember node.nodeID value outputs)
    | .malformed _ => none

/-- `finalizeExecutionIfComplete`. -/
def finalizeExecutionIfComplete (definition : WorkflowDefinition) (nodes : List WorkflowNodeExecution)
    (execution : WorkflowExecution) : Script Unit :=
  if nodes.length ≠ definition.nodeList.length then touchRunningExecution execution
  else if nodes.any fun n => n.status ≠ .succeeded && n.status ≠ .skipped then touchRunningExecution execution
  else
    match collectOutputs nodes [] with
    | none => fail (.other "json: error calling MarshalJSON for type json.RawMessage")
    | some outputs => do
      let now ← now
      let execution := { execution with
        status := .succeeded
        output := .json (.obj [("nodes", .obj outputs)])
        completedAt := some now
        updatedAt := now }
      let updated ← canvas (.finalizeWorkflowExecution execution [.pending, .running] false)
      if updated then record (executionMetric execution .workflowExecutionSucceeded "")

/-! ### Advancing, starting and cancelling -/

/-- The main loop of `AdvanceExecution`, with the rounds that are left. -/
def advanceLoop (h : Host) (definition : WorkflowDefinition) : Nat → WorkflowExecution → Script Unit
  | 0, _ => pure ()
  | rounds + 1, execution => do
    let nodes ← canvas (.getWorkflowNodeExecutions execution.orgID execution.id)
    let (changed, execution) ← reconcileExternalNodes h definition nodes false execution
    if changed then advanceLoop h definition rounds execution
    else
      let nodes ← canvas (.getWorkflowNodeExecutions execution.orgID execution.id)
      match nodes.find? fun n => n.status = .failed with
      | some failed =>
        let _ ← failExecution execution failed.errorCode failed.errorMessage
      | none =>
        let (progressed, execution) ← scheduleRunnableNodes h definition nodes execution definition.nodeList
        if progressed then advanceLoop h definition rounds execution
        else finalizeExecutionIfComplete definition nodes execution

/-- The step from pending to running in `AdvanceExecution`. -/
def markRunning (execution : WorkflowExecution) : Script WorkflowExecution :=
  if execution.status = .pending then do
    let now ← now
    let execution := { execution with status := .running, startedAt := some now, updatedAt := now }
    let updated ← canvas (.updateWorkflowExecution execution [.pending])
    if updated then record (executionMetric execution .workflowExecutionStarted "")
    pure execution
  else pure execution

def advanceExecution (h : Host) (orgID workflowID executionID : UUID) : Script Unit := do
  let execution ← canvas (.getWorkflowExecution orgID workflowID executionID)
  if execution.status.terminal then pure ()
  else
    let version ← canvas (.getWorkflowExecutionVersion orgID workflowID execution.workflowVersionID)
    if version.version ≠ execution.workflowVersion then fail .workflowVersionNotFound
    else
      let execution ← markRunning execution
      advanceLoop h version.definition (version.definition.nodeList.length + 2) execution

def cancelExecution (orgID workflowID executionID : UUID) : Script WorkflowExecution := do
  let now ← now
  let execution ← canvas (.cancelWorkflowExecution orgID workflowID executionID now)
  record (executionMetric execution .workflowExecutionCancelled "")
  match ← tryCanvas (.getWorkflowNodeExecutions orgID executionID) with
  | .ok nodes => recordCancelled nodes
  | .error _ => pure ()
  pure execution

structure WorkflowExecutionDetail where
  execution : WorkflowExecution
  nodes : List WorkflowNodeExecution
deriving DecidableEq

/-- `GetExecution`. The statement orders the nodes as the source sorts them again. -/
def getExecution (orgID workflowID executionID : UUID) : Script WorkflowExecutionDetail := do
  let execution ← canvas (.getWorkflowExecution orgID workflowID executionID)
  let nodes ← canvas (.getWorkflowNodeExecutions orgID executionID)
  pure ⟨execution, nodes⟩

structure WorkflowExecutionFilter where
  status : String
  cursor : String
  limit : Int

def listExecutions (h : Host) (orgID workflowID : UUID) (filter : WorkflowExecutionFilter) :
    Script (Page WorkflowExecution) :=
  if filter.status ∉ ["", "pending", "running", "succeeded", "failed", "cancelled"] then fail .invalidInput
  else do
    let _ ← canvas (.getWorkflowByID orgID workflowID)
    h.page (fun x => (x.createdAt, x.id)) filter.cursor filter.limit fun after limit =>
      canvas (.listWorkflowExecutions orgID workflowID filter.status after limit)

structure StartWorkflowExecutionInput where
  orgID : UUID
  workflowID : UUID
  version : Option Int
  input : RawMessage
  idempotencyKey : String

structure WorkflowExecutionStartResult where
  executionID : UUID
  workflowID : UUID
  workflowVersion : Int
  status : WorkflowExecutionStatus
  createdAt : Time
deriving DecidableEq

/-- `selectVersion`. -/
def selectVersion (orgID workflowID : UUID) (requested : Option Int) : Script WorkflowVersion := do
  let version ← match requested with
    | some n =>
      if n ≤ 0 then fail .invalidInput else canvas (.getWorkflowVersion orgID workflowID n)
    | none => canvas (.getLatestWorkflowVersion orgID workflowID)
  if version.status ≠ .published then fail .workflowVersionNotFound else pure version

/-- `normalizeWorkflowExecutionInput`. -/
def normalizeWorkflowExecutionInput : RawMessage → Option RawMessage
  | .empty => some .empty
  | raw => raw.unmarshal.map .json

/-- The size of a message in bytes. -/
def Host.size (h : Host) : RawMessage → Nat
  | .json value => (h.marshal value).utf8ByteSize
  | _ => 0

/-- `workflowExecutionFingerprint`; a nil input is written as `null`. -/
def workflowExecutionFingerprint (h : Host) (workflowID : UUID) (version : Int) (input : RawMessage) : String :=
  h.sha256 (h.marshal (.obj [
    ("workflow_id", .str workflowID.text),
    ("version", .num version),
    ("input", match input with
      | .json value => value
      | _ => .null)]))

/-- A pending row for each node of the definition. -/
def newNodeExecutions (orgID executionID : UUID) (now : Time) :
    List WorkflowNode → Script (List WorkflowNodeExecution)
  | [] => pure []
  | node :: rest => do
    let id ← newUUID
    let nodes ← newNodeExecutions orgID executionID now rest
    pure ({
      id := id
      orgID := orgID
      workflowExecutionID := executionID
      nodeID := node.id
      nodeType := node.type
      status := .pending
      attempt := 0
      input := .empty
      output := .empty
      errorCode := ""
      errorMessage := ""
      queueTaskID := none
      webhookDeliveryID := none
      availableAt := none
      startedAt := none
      completedAt := none
      createdAt := now
      updatedAt := now } :: nodes)

/-- The execution that has the key already, unless it is of another request. -/
def reuseExecution (existing : WorkflowExecution) (fingerprint : String) : Script (WorkflowExecution × Bool) :=
  if existing.requestFingerprint ≠ fingerprint then fail .workflowExecutionIdempotencyConflict
  else pure (existing, true)

/-- `CreateWorkflowExecution`: look the key up, insert, and look it up again when another call won. -/
def createWorkflowExecution (execution : WorkflowExecution) (nodes : List WorkflowNodeExecution) :
    Script (WorkflowExecution × Bool) := do
  match ← tryCanvas (.getWorkflowExecutionByIdempotency execution.orgID execution.idempotencyKey) with
  | .ok existing => reuseExecution existing execution.requestFingerprint
  | .error .workflowExecutionNotFound =>
    let inserted ← canvas (.insertWorkflowExecution execution nodes)
    if inserted then pure (execution, false)
    else
      let existing ← canvas (.getWorkflowExecutionByIdempotency execution.orgID execution.idempotencyKey)
      reuseExecution existing execution.requestFingerprint
  | .error e => fail e

/-- `StartExecution`, up to the stored execution: whether it was there already, and the execution. -/
def admitExecution (h : Host) (input : StartWorkflowExecutionInput) : Script (WorkflowExecution × Bool) := do
  let idempotencyKey := trimSpace input.idempotencyKey
  if idempotencyKey = "" ∨ 255 < idempotencyKey.utf8ByteSize then fail .invalidInput
  else
    let workflow ← canvas (.getWorkflowByID input.orgID input.workflowID)
    if workflow.status ≠ .published then fail .workflowNotPublished
    else
      let version ← selectVersion input.orgID input.workflowID input.version
      match normalizeWorkflowExecutionInput input.input with
      | none => fail .invalidInput
      | some normalized =>
        if maxWorkflowExecutionInputBytes < h.size normalized then fail .invalidInput
        else
          let now ← now
          let id ← newUUID
          let nodes ← newNodeExecutions input.orgID id now version.definition.nodeList
          createWorkflowExecution {
            id := id
            orgID := input.orgID
            workflowID := input.workflowID
            workflowVersionID := version.id
            workflowVersion := version.version
            status := .pending
            input := normalized
            output := .empty
            errorCode := ""
            errorMessage := ""
            idempotencyKey := idempotencyKey
            requestFingerprint := workflowExecutionFingerprint h input.workflowID version.version normalized
            startedAt := none
            completedAt := none
            createdAt := now
            updatedAt := now } nodes

def startExecution (h : Host) (input : StartWorkflowExecutionInput) : Script (WorkflowExecutionStartResult × Bool) := do
  let (execution, reused) ← admitExecution h input
  if execution.workflowID ≠ input.workflowID then fail .workflowExecutionIdempotencyConflict
  else
    if !reused then record (executionMetric execution .workflowExecutionCreated "")
    advanceExecution h execution.orgID execution.workflowID execution.id
    let current ← canvas (.getWorkflowExecution execution.orgID execution.workflowID execution.id)
    pure (⟨current.id, current.workflowID, current.workflowVersion, current.status, current.createdAt⟩, reused)

/-- The executions one after the other; one that fails does not stop the others. -/
def reconcileAll (h : Host) : List WorkflowExecution → Script Unit
  | [] => pure ()
  | execution :: rest => do
    let _ ← (advanceExecution h execution.orgID execution.workflowID execution.id).catched
    reconcileAll h rest

/-- `ReconcileActive`. -/
def reconcileActive (h : Host) (limit : Int) : Script Unit := do
  let executions ← canvas (.listWorkflowExecutionsForReconciliation limit)
  reconcileAll h executions

end Windylane
