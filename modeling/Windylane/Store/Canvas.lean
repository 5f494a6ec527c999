import Windylane.Domain
import Windylane.Lib.Table

/-! The workflow, version, execution and node tables, after `internal/storage/postgres/workflow_repository.go`
    and `workflow_execution_repository.go`. Each function is one statement or one transaction. -/

namespace Windylane.Canvas

structure Store where
  workflows : List Workflow
  versions : List WorkflowVersion
  executions : List WorkflowExecution
  nodes : List WorkflowNodeExecution
deriving DecidableEq

/-! ### Workflows and versions -/

/-- A workflow that is not deleted. -/
def current (orgID id : UUID) (w : Workflow) : Bool := w.orgID = orgID && w.id = id && w.deletedAt.isNone

/-- A conflict is a violation of the primary key or of `uq_workflows_org_slug_active`. -/
def createWorkflow (workflow : Workflow) (s : Store) : Except Err Unit × Store :=
  if s.workflows.any (fun w => w.id = workflow.id ||
      (w.orgID = workflow.orgID && w.slug = workflow.slug && w.deletedAt.isNone)) then (.error .workflowSlugConflict, s)
  else (.ok (), { s with workflows := s.workflows ++ [{ workflow with deletedAt := none }] })

def getWorkflowByID (orgID id : UUID) (s : Store) : Except Err Workflow :=
  match s.workflows.find? fun w => w.orgID = orgID && w.id = id && w.deletedAt.isNone with
  | some workflow => .ok workflow
  | none => .error .workflowNotFound

def getWorkflowBySlug (orgID : UUID) (slug : String) (s : Store) : Except Err Workflow :=
  match s.workflows.find? fun w => w.orgID = orgID && w.slug = slug && w.deletedAt.isNone with
  | some workflow => .ok workflow
  | none => .error .workflowNotFound

/-- An empty status does not filter. -/
def listWorkflows (orgID : UUID) (status : String) (after : Cursor) (limit : Nat) (s : Store) : List Workflow :=
  Table.firstBy (newestFirst fun w => (w.createdAt, w.id)) limit
    (s.workflows.filter fun w => w.orgID = orgID && w.deletedAt.isNone && (status = "" || w.status.text = status) &&
      after.passed (w.createdAt, w.id))

/-- The columns that `UpdateWorkflow` sets. -/
def edited (workflow row : Workflow) : Workflow :=
  { row with
    name := workflow.name
    slug := workflow.slug
    description := workflow.description
    definition := workflow.definition
    status := workflow.status
    updatedAt := workflow.updatedAt }

def updateWorkflow (workflow : Workflow) (s : Store) : Except Err Unit × Store :=
  if !(s.workflows.any (current workflow.orgID workflow.id)) then (.error .workflowNotFound, s)
  else if s.workflows.any (fun w => w.orgID = workflow.orgID && w.slug = workflow.slug && w.deletedAt.isNone &&
      w.id ≠ workflow.id) then (.error .workflowSlugConflict, s)
  else (.ok (), { s with workflows := Table.update (current workflow.orgID workflow.id) (edited workflow) s.workflows })

def removed (now : Time) (w : Workflow) : Workflow := { w with deletedAt := some now, updatedAt := now }

def softDeleteWorkflow (orgID id : UUID) (now : Time) (s : Store) : Except Err Unit × Store :=
  if !(s.workflows.any (current orgID id)) then (.error .workflowNotFound, s)
  else (.ok (), { s with workflows := Table.update (current orgID id) (removed now) s.workflows })

/-- `COALESCE(MAX(version), 0) + 1`. -/
def nextVersion (orgID workflowID : UUID) (s : Store) : Int :=
  match ((s.versions.filter fun v => v.orgID = orgID && v.workflowID = workflowID).map (·.version)).max? with
  | some latest => latest + 1
  | none => 1

/-- The snapshot of a workflow that is published. -/
def snapshot (workflow : Workflow) (version : Int) (versionID : UUID) (publishedAt : Time) : WorkflowVersion where
  id := versionID
  orgID := workflow.orgID
  workflowID := workflow.id
  version := version
  name := workflow.name
  slug := workflow.slug
  description := workflow.description
  definition := workflow.definition
  status := .published
  publishedAt := publishedAt
  createdAt := publishedAt

def released (publishedAt : Time) (w : Workflow) : Workflow :=
  { w with status := .published, updatedAt := publishedAt }

/-- One transaction: the row is locked and compared with the row that was read, a version is inserted and the
    status set. `versionID` is the id drawn for the version. -/
def publishWorkflow (expected : Workflow) (publishedAt : Time) (versionID : UUID) (s : Store) :
    Except Err WorkflowVersion × Store :=
  match s.workflows.find? (current expected.orgID expected.id) with
  | none => (.error .workflowNotFound, s)
  | some row =>
    if row.status = .archived then (.error .invalidStateTransition, s)
    else if row.updatedAt ≠ expected.updatedAt then (.error .workflowPublishConflict, s)
    else if s.versions.any (fun v => v.id = versionID) then
      (.error (.other "postgres: publish workflow insert version: duplicate key"), s)
    else
      let version := snapshot row (nextVersion row.orgID row.id s) versionID publishedAt
      (.ok version, { s with
        versions := s.versions ++ [version]
        workflows := Table.update (current row.orgID row.id) (released publishedAt) s.workflows })

/-- The keys of `workflow_versions`, and its reference to `workflows`. -/
def createWorkflowVersion (version : WorkflowVersion) (s : Store) : Except Err Unit × Store :=
  if s.versions.any (fun v => v.id = version.id || (v.orgID = version.orgID && v.workflowID = version.workflowID &&
      v.version = version.version)) then (.error (.other "postgres: create workflow version: duplicate key"), s)
  else if !(s.workflows.any fun w => w.orgID = version.orgID && w.id = version.workflowID) then
    (.error (.other "postgres: create workflow version: no such workflow"), s)
  else if version.version ≤ 0 then (.error (.other "postgres: create workflow version: version out of range"), s)
  else (.ok (), { s with versions := s.versions ++ [version] })

/-- The second statement of `ListWorkflowVersions`. -/
def listWorkflowVersions (orgID workflowID : UUID) (s : Store) : List WorkflowVersionSummary :=
  (Table.firstBy (fun a b => b.version ≤ a.version) s.versions.length
    (s.versions.filter fun v => v.orgID = orgID && v.workflowID = workflowID)).map fun v =>
      ⟨v.version, v.id, v.status, v.publishedAt, v.name, v.slug⟩

/-- The versions of a workflow that is not deleted. -/
def versionsOf (orgID workflowID : UUID) (s : Store) : List WorkflowVersion :=
  s.versions.filter fun v => v.orgID = orgID && v.workflowID = workflowID &&
    s.workflows.any fun w => w.id = v.workflowID && w.orgID = v.orgID && w.deletedAt.isNone

def getWorkflowVersion (orgID workflowID : UUID) (version : Int) (s : Store) : Except Err WorkflowVersion :=
  match (versionsOf orgID workflowID s).find? fun v => v.version = version with
  | some v => .ok v
  | none => .error .workflowVersionNotFound

def getLatestWorkflowVersion (orgID workflowID : UUID) (s : Store) : Except Err WorkflowVersion :=
  match Table.firstBy (fun a b => b.version ≤ a.version) 1 (versionsOf orgID workflowID s) with
  | v :: _ => .ok v
  | [] => .error .workflowVersionNotFound

def getWorkflowExecutionVersion (orgID workflowID versionID : UUID) (s : Store) : Except Err WorkflowVersion :=
  match s.versions.find? fun v => v.orgID = orgID && v.workflowID = workflowID && v.id = versionID with
  | some v => .ok v
  | none => .error .workflowVersionNotFound

/-! ### Executions -/

def getWorkflowExecution (orgID workflowID executionID : UUID) (s : Store) : Except Err WorkflowExecution :=
  match s.executions.find? fun x => x.orgID = orgID && x.workflowID = workflowID && x.id = executionID with
  | some execution => .ok execution
  | none => .error .workflowExecutionNotFound

def getWorkflowExecutionByIdempotency (orgID : UUID) (idempotencyKey : String) (s : Store) :
    Except Err WorkflowExecution :=
  match s.executions.find? fun x => x.orgID = orgID && x.idempotencyKey = idempotencyKey with
  | some execution => .ok execution
  | none => .error .workflowExecutionNotFound

/-- An empty status does not filter. -/
def listWorkflowExecutions (orgID workflowID : UUID) (status : String) (after : Cursor) (limit : Nat) (s : Store) :
    List WorkflowExecution :=
  Table.firstBy (newestFirst fun x => (x.createdAt, x.id)) limit
    (s.executions.filter fun x => x.orgID = orgID && x.workflowID = workflowID &&
      (status = "" || x.status.text = status) && after.passed (x.createdAt, x.id))

/-- The answer of the inserting transaction of `CreateWorkflowExecution`: `false` is the violation of
    `workflow_executions_org_idempotency_unique`, after which the caller looks the winner up. -/
def insertWorkflowExecution (execution : WorkflowExecution) (nodes : List WorkflowNodeExecution) (s : Store) :
    Except Err Bool × Store :=
  if s.executions.any (fun x => x.id = execution.id) then
    (.error (.other "postgres: create workflow execution: duplicate key"), s)
  else if s.executions.any (fun x => x.orgID = execution.orgID && x.idempotencyKey = execution.idempotencyKey) then
    (.ok false, s)
  else if !(s.versions.any fun v => v.orgID = execution.orgID && v.workflowID = execution.workflowID &&
      v.id = execution.workflowVersionID && v.version = execution.workflowVersion) then
    (.error (.other "postgres: create workflow execution: no such version"), s)
  -- the primary key, the key (org, execution, node) and the type check of the node rows
  else if !(decide ((s.nodes ++ nodes).map (·.id)).Nodup && decide (nodes.map (·.nodeID)).Nodup &&
      nodes.all fun n => n.nodeType.valid && n.orgID = execution.orgID && n.workflowExecutionID = execution.id) then
    (.error (.other "postgres: create workflow node execution"), s)
  else
    (.ok true, { s with executions := s.executions ++ [execution], nodes := s.nodes ++ nodes })

/-- `ORDER BY created_at ASC, node_id ASC`. -/
def getWorkflowNodeExecutions (orgID executionID : UUID) (s : Store) : List WorkflowNodeExecution :=
  Table.firstBy (fun a b => a.createdAt < b.createdAt || (a.createdAt = b.createdAt && a.nodeID < b.nodeID))
    s.nodes.length (s.nodes.filter fun n => n.orgID = orgID && n.workflowExecutionID = executionID)

/-- What a claim writes to a pending node. -/
def claimed (now : Time) (n : WorkflowNodeExecution) : WorkflowNodeExecution :=
  { n with
    status := .running
    attempt := n.attempt + 1
    startedAt := n.startedAt.or (some now)
    updatedAt := now }

/-- `none` when the node is not pending any more. -/
def claimWorkflowNode (orgID executionID : UUID) (nodeID : String) (now : Time) (s : Store) :
    Option WorkflowNodeExecution × Store :=
  let p := fun n : WorkflowNodeExecution =>
    n.orgID = orgID && n.workflowExecutionID = executionID && n.nodeID = nodeID && n.status = .pending
  match s.nodes.find? p with
  | some n => (some (claimed now n), { s with nodes := Table.update p (claimed now) s.nodes })
  | none => (none, s)

/-- The columns of a node that `UpdateWorkflowNodeExecution` sets. -/
def overwrite (node row : WorkflowNodeExecution) : WorkflowNodeExecution :=
  { row with
    status := node.status
    attempt := node.attempt
    input := node.input
    output := node.output
    errorCode := node.errorCode
    errorMessage := node.errorMessage
    queueTaskID := node.queueTaskID
    webhookDeliveryID := node.webhookDeliveryID
    availableAt := node.availableAt
    startedAt := node.startedAt
    completedAt := node.completedAt
    updatedAt := node.updatedAt }

/-- Answers whether the one row was updated. -/
def updateWorkflowNodeExecution (node : WorkflowNodeExecution) (expected : WorkflowNodeExecutionStatus) (s : Store) :
    Bool × Store :=
  let p := fun n : WorkflowNodeExecution =>
    n.orgID = node.orgID && n.workflowExecutionID = node.workflowExecutionID && n.id = node.id && n.status = expected
  (s.nodes.countP p = 1, { s with nodes := Table.update p (overwrite node) s.nodes })

/-- The columns of an execution that `UpdateWorkflowExecution` and `FinalizeWorkflowExecution` set. -/
def revise (execution row : WorkflowExecution) : WorkflowExecution :=
  { row with
    status := execution.status
    output := execution.output
    errorCode := execution.errorCode
    errorMessage := execution.errorMessage
    startedAt := execution.startedAt
    completedAt := execution.completedAt
    updatedAt := execution.updatedAt }

def updateWorkflowExecution (execution : WorkflowExecution) (expected : List WorkflowExecutionStatus) (s : Store) :
    Bool × Store :=
  let p := fun x : WorkflowExecution => x.orgID = execution.orgID && x.id = execution.id && x.status ∈ expected
  (s.executions.countP p = 1, { s with executions := Table.update p (revise execution) s.executions })

/-- What closing an execution writes to a node that is still open. -/
def closed (errorCode errorMessage : String) (now : Time) (n : WorkflowNodeExecution) : WorkflowNodeExecution :=
  { n with
    status := .cancelled
    errorCode := errorCode
    errorMessage := errorMessage
    completedAt := some now
    updatedAt := now }

/-- The open nodes of an execution. -/
def openNode (orgID executionID : UUID) (n : WorkflowNodeExecution) : Bool :=
  n.orgID = orgID && n.workflowExecutionID = executionID &&
    (n.status = .pending || n.status = .queued || n.status = .running)

def finalizeWorkflowExecution (execution : WorkflowExecution) (expected : List WorkflowExecutionStatus)
    (cancelOpenNodes : Bool) (s : Store) : Bool × Store :=
  let p := fun x : WorkflowExecution => x.orgID = execution.orgID && x.id = execution.id && x.status ∈ expected
  if !(s.executions.any p) then (false, s)
  else
    (true, { s with
      executions := Table.update p (revise execution) s.executions
      nodes :=
        if cancelOpenNodes then
          Table.update (openNode execution.orgID execution.id)
            (closed execution.errorCode execution.errorMessage execution.updatedAt) s.nodes
        else s.nodes })

/-- What a cancellation writes to an execution. -/
def cancelled (now : Time) (x : WorkflowExecution) : WorkflowExecution :=
  { x with
    status := .cancelled
    errorCode := "workflow_execution_cancelled"
    errorMessage := "workflow execution was cancelled"
    completedAt := some now
    updatedAt := now }

def cancelWorkflowExecution (orgID workflowID executionID : UUID) (now : Time) (s : Store) :
    Except Err WorkflowExecution × Store :=
  match getWorkflowExecution orgID workflowID executionID s with
  | .error e => (.error e, s)
  | .ok execution =>
    if execution.status.terminal then (.error .workflowExecutionTerminal, s)
    else
      (.ok (cancelled now execution), { s with
        executions := Table.update (fun x => x.orgID = orgID && x.id = executionID) (cancelled now) s.executions
        nodes := Table.update (openNode orgID executionID)
          (closed "workflow_execution_cancelled" "workflow execution was cancelled" now) s.nodes })

def listWorkflowExecutionsForReconciliation (limit : Int) (s : Store) : List WorkflowExecution :=
  let limit := if limit ≤ 0 ∨ 1000 < limit then 100 else limit
  Table.firstBy (fun a b => a.updatedAt < b.updatedAt || (a.updatedAt = b.updatedAt && a.id < b.id)) limit.toNat
    (s.executions.filter fun x => x.status = .pending || x.status = .running)

end Windylane.Canvas
