import Windylane.Service.Executions

/-! One execution of a workflow, as what it is for: a row of its own, a row for each node of its definition, and
    the steps these rows can take together. A node that is resolved never changes again, so what makes another
    node ready stays true however late it is acted on; the steps are guarded by nothing else. The services
    refine this: every statement they call is one of these steps on one execution, or changes nothing. -/

namespace Windylane

/-! ### The graph on the rows -/

def Resolved (nodes : List WorkflowNodeExecution) (id : String) : Prop :=
  ∃ n, stateOf nodes id = some n ∧ (n.status = .succeeded ∨ n.status = .skipped)

/-- An edge whose source succeeded and, when the source is a condition and the edge carries a branch, whose
    branch is the result of the condition. -/
def ActiveEdge (d : WorkflowDefinition) (nodes : List WorkflowNodeExecution) (e : WorkflowEdge) : Prop :=
  ∃ n, stateOf nodes e.source = some n ∧ n.status = .succeeded ∧
    ((d.node? e.source).map (·.type) = some .condition →
      ∀ branch, parseWorkflowBranch e.condition = .ok (some branch) → workflowConditionResult n.output = .ok branch)

/-- The node is to be executed. -/
def Runnable (d : WorkflowDefinition) (nodes : List WorkflowNodeExecution) (m : WorkflowNode) : Prop :=
  m.type = .trigger ∨
    m.type ≠ .trigger ∧ (∀ e ∈ d.incoming m.id, Resolved nodes e.source) ∧ ∃ e ∈ d.incoming m.id, ActiveEdge d nodes e

/-- The node is to be skipped. -/
def Skippable (d : WorkflowDefinition) (nodes : List WorkflowNodeExecution) (m : WorkflowNode) : Prop :=
  m.type ≠ .trigger ∧ (∀ e ∈ d.incoming m.id, Resolved nodes e.source) ∧ ∀ e ∈ d.incoming m.id, ¬ ActiveEdge d nodes e

/-! ### Rows -/

structure Run where
  execution : WorkflowExecution
  nodes : List WorkflowNodeExecution

/-- The columns of an execution that are never written after it was inserted. -/
structure SameExecution (x y : WorkflowExecution) : Prop where
  id : y.id = x.id
  orgID : y.orgID = x.orgID
  workflowID : y.workflowID = x.workflowID
  workflowVersionID : y.workflowVersionID = x.workflowVersionID
  workflowVersion : y.workflowVersion = x.workflowVersion
  input : y.input = x.input
  idempotencyKey : y.idempotencyKey = x.idempotencyKey
  requestFingerprint : y.requestFingerprint = x.requestFingerprint
  createdAt : y.createdAt = x.createdAt

/-- The same for a node. -/
structure SameNode (n n' : WorkflowNodeExecution) : Prop where
  id : n'.id = n.id
  orgID : n'.orgID = n.orgID
  workflowExecutionID : n'.workflowExecutionID = n.workflowExecutionID
  nodeID : n'.nodeID = n.nodeID
  nodeType : n'.nodeType = n.nodeType
  createdAt : n'.createdAt = n.createdAt

/-- Only tasks have a task, and only webhooks a delivery. -/
structure Linked (n : WorkflowNodeExecution) : Prop where
  task : n.queueTaskID ≠ none → n.nodeType = .task
  webhook : n.webhookDeliveryID ≠ none → n.nodeType = .webhook

structure Unlinked (n : WorkflowNodeExecution) : Prop where
  task : n.queueTaskID = none
  webhook : n.webhookDeliveryID = none
  delay : n.availableAt = none

/-- The node was executed: what follows from its claim was stored. -/
def Engaged (n : WorkflowNodeExecution) : Prop :=
  n.status = .queued ∨ n.status = .succeeded ∨ n.status = .failed ∨ ¬ Unlinked n

/-- No bytes, or the text of a JSON value. -/
def Sound (message : RawMessage) : Prop := message.isEmpty = true ∨ message.valid = true

/-- The output of a condition is its result on the input. -/
def Evaluated (input : RawMessage) (m : WorkflowNode) (output : RawMessage) : Prop :=
  ∃ config result, parseWorkflowConditionConfig m.config = .ok config ∧
    evaluateWorkflowCondition config input = .ok result ∧ output = .json (.obj [("result", .bool result)])

/-! ### Steps -/

/-- What the steps depend on: the definition, whether claims are executed only for nodes that are to run
    (`strict`), and the external work that is done. -/
structure Rules where
  definition : WorkflowDefinition
  strict : Prop
  done : WorkflowNodeExecution → Prop

/-- `node` can be stored over its row, which has the status `expected`. -/
structure Settles (g : Rules) (r : Run) (m : WorkflowNode) (node : WorkflowNodeExecution)
    (expected : WorkflowNodeExecutionStatus) : Prop where
  member : m ∈ g.definition.nodeList
  nodeID : m.id = node.nodeID
  row : ∃ n ∈ r.nodes, SameNode n node
  expected : expected = .queued ∨ expected = .running
  status : node.status = .queued ∨ node.status = .running ∨ node.status = .succeeded ∨ node.status = .failed
  links : Linked node
  output : Sound node.output
  runnable : g.strict → Runnable g.definition r.nodes m
  result : node.status = .succeeded → m.type = .condition → Evaluated r.execution.input m node.output
  work : node.status = .succeeded → g.done node

inductive RunStep (g : Rules) : Run → Run → Prop
  /-- The execution starts to run, or is touched. -/
  | touch {r : Run} (x : WorkflowExecution) (live : r.execution.status.terminal = false)
      (same : SameExecution r.execution x) (running : x.status = .running) : RunStep g r { r with execution := x }
  | claim {r : Run} (m : WorkflowNode) (p : WorkflowNodeExecution → Bool) (now : Time)
      (member : m ∈ g.definition.nodeList) (ready : Runnable g.definition r.nodes m ∨ Skippable g.definition r.nodes m)
      (which : ∀ n ∈ r.nodes, p n = true → n.nodeID = m.id ∧ n.status = .pending) :
      RunStep g r { r with nodes := Table.update p (Canvas.claimed now) r.nodes }
  | skip {r : Run} (m : WorkflowNode) (node : WorkflowNodeExecution) (p : WorkflowNodeExecution → Bool)
      (member : m ∈ g.definition.nodeList) (nodeID : m.id = node.nodeID) (row : ∃ n ∈ r.nodes, SameNode n node)
      (status : node.status = .skipped) (unlinked : Unlinked node) (output : Sound node.output)
      (skippable : Skippable g.definition r.nodes m)
      (which : ∀ n ∈ r.nodes, p n = true → n.id = node.id ∧ n.status = .running) :
      RunStep g r { r with nodes := Table.update p (Canvas.overwrite node) r.nodes }
  | settle {r : Run} (m : WorkflowNode) (node : WorkflowNodeExecution) (expected : WorkflowNodeExecutionStatus)
      (p : WorkflowNodeExecution → Bool) (settles : Settles g r m node expected)
      (which : ∀ n ∈ r.nodes, p n = true → n.id = node.id ∧ n.status = expected) :
      RunStep g r { r with nodes := Table.update p (Canvas.overwrite node) r.nodes }
  | finish {r : Run} (x : WorkflowExecution) (live : r.execution.status.terminal = false)
      (same : SameExecution r.execution x) (succeeded : x.status = .succeeded)
      (resolved : ∀ n ∈ r.nodes, n.status = .succeeded ∨ n.status = .skipped) :
      RunStep g r { r with execution := x }
  /-- The execution fails or is cancelled, and its open nodes with it. -/
  | close {r : Run} (x : WorkflowExecution) (code message : String) (now : Time)
      (p : WorkflowNodeExecution → Bool) (live : r.execution.status.terminal = false)
      (same : SameExecution r.execution x) (status : x.status = .failed ∨ x.status = .cancelled)
      (which : ∀ n ∈ r.nodes, p n = true ↔ n.status.terminal = false) :
      RunStep g r ⟨x, Table.update p (Canvas.closed code message now) r.nodes⟩

/-! ### The invariant -/

structure RowOK (g : Rules) (r : Run) (n : WorkflowNodeExecution) : Prop where
  links : Linked n
  output : Sound n.output
  untouched : n.status = .pending → Unlinked n
  /-- Nothing was claimed, skipped or executed before it was ready. -/
  ready : n.status ≠ .pending → n.status ≠ .cancelled → ∀ m ∈ g.definition.nodeList, m.id = n.nodeID →
    Runnable g.definition r.nodes m ∨ Skippable g.definition r.nodes m
  engaged : g.strict → Engaged n → ∀ m ∈ g.definition.nodeList, m.id = n.nodeID → Runnable g.definition r.nodes m
  skipped : n.status = .skipped → ∀ m ∈ g.definition.nodeList, m.id = n.nodeID → Skippable g.definition r.nodes m
  result : n.status = .succeeded → ∀ m ∈ g.definition.nodeList, m.id = n.nodeID → m.type = .condition →
    Evaluated r.execution.input m n.output
  work : n.status = .succeeded → g.done n

structure RunInv (g : Rules) (r : Run) : Prop where
  /-- One row for each node of the definition, in its order. -/
  keys : r.nodes.map (fun n => (n.nodeID, n.nodeType)) = g.definition.nodeList.map (fun m => (m.id, m.type))
  nodeIDs : (r.nodes.map (·.nodeID)).Nodup
  ids : (r.nodes.map (·.id)).Nodup
  owned : ∀ n ∈ r.nodes, n.orgID = r.execution.orgID ∧ n.workflowExecutionID = r.execution.id
  input : Sound r.execution.input
  rows : ∀ n ∈ r.nodes, RowOK g r n
  live : r.execution.status.terminal = false → ∀ n ∈ r.nodes, n.status ≠ .cancelled
  closed : r.execution.status.terminal = true → ∀ n ∈ r.nodes, n.status.terminal = true
  complete : r.execution.status = .succeeded → ∀ n ∈ r.nodes, n.status = .succeeded ∨ n.status = .skipped

/-- An execution as it is inserted. -/
structure Initial (d : WorkflowDefinition) (r : Run) : Prop where
  keys : r.nodes.map (fun n => (n.nodeID, n.nodeType)) = d.nodeList.map (fun m => (m.id, m.type))
  nodeIDs : (r.nodes.map (·.nodeID)).Nodup
  ids : (r.nodes.map (·.id)).Nodup
  owned : ∀ n ∈ r.nodes, n.orgID = r.execution.orgID ∧ n.workflowExecutionID = r.execution.id
  input : Sound r.execution.input
  pending : r.execution.status = .pending
  untouched : ∀ n ∈ r.nodes, n.status = .pending ∧ Unlinked n ∧ n.output = .empty

end Windylane
