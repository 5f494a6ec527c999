import Windylane.Calls

/-! The programs of the workflow service are made of their own calls and of the programs of its dispatchers. A
    property of programs that is closed under that (`Closed`) holds of all of them once it holds of the dispatchers. -/

namespace Windylane

open Conc Script Prog

-- the conditions on texts are not decided here
seal trimSpace

/-! ### Footprints -/

/-- What a program may do besides reading, and moving tasks. -/
structure Footprint where
  /-- It writes executions. -/
  runs : Prop
  /-- It writes workflows, and publishes them. -/
  workflows : Prop
  /-- It writes endpoints. -/
  endpoints : Prop
  /-- It claims tasks and stores their results. -/
  results : Prop
  /-- It sends requests. -/
  sends : Prop
  /-- It claims deliveries and stores their results. -/
  deliveries : Prop
  /-- The tasks that it creates. -/
  create : Task → Prop
  /-- The deliveries that it creates. -/
  deliver : WebhookDelivery → Prop
  /-- The messages that it sends and moves. -/
  messages : BrokerOp → Prop := fun _ => True
  /-- The metrics that it records. -/
  records : NewMetricEventInput → Prop := fun _ => True

def SysOp.within (f : Footprint) : SysOp → Prop
  | .recovery _ _ => f.runs
  | .record event => f.records event
  | .send _ => f.sends
  | _ => True

def TaskOp.within (f : Footprint) : TaskOp → Prop
  | .create t => f.create t
  | .claimForProcessing _ _ _ _ | .complete _ _ _ | .fail _ _ _ _ _ _ | .moveToDeadLetter _ _ _ _ => f.results
  | _ => True

def HookOp.within (f : Footprint) : HookOp → Prop
  | .createWebhookEndpoint _ | .updateWebhookEndpoint _ | .softDeleteWebhookEndpoint _ _ _ => f.endpoints
  | .createWebhookDelivery delivery => f.deliver delivery
  | .claimDueWebhookDeliveries _ _ | .updateWebhookDelivery _ => f.deliveries
  | _ => True

def CanvasOp.within (f : Footprint) : CanvasOp → Prop
  | .createWorkflow _ | .updateWorkflow _ | .softDeleteWorkflow _ _ _ | .publishWorkflow _ _ _ => f.workflows
  | .createWorkflowVersion _ => False
  | .insertWorkflowExecution _ _ | .claimWorkflowNode _ _ _ _ | .updateWorkflowNodeExecution _ _
  | .updateWorkflowExecution _ _ | .finalizeWorkflowExecution _ _ _ | .cancelWorkflowExecution _ _ _ _ => f.runs
  | _ => True

/-- The call is within the footprint. -/
def Op.within (f : Footprint) : Op → Prop
  | .sys o => o.within f
  | .task o => o.within f
  | .hook o => o.within f
  | .canvas o => o.within f
  | .broker o => f.messages o
  | .worker _ => True

attribute [simp] SysOp.within TaskOp.within HookOp.within CanvasOp.within

/-! ### The workflow service -/

/-- What the workflow service calls by itself on an execution that is stored; the rest is called by its dispatchers. -/
def Op.advances : Op → Prop
  | .sys .now | .sys .newUUID | .sys (.recovery _ _) => True
  | .sys (.record event) => event.source = .taskCanvas
  | .task (.getByID _ _) | .hook (.getWebhookDelivery _ _) => True
  | .canvas (.createWorkflow _) | .canvas (.updateWorkflow _) | .canvas (.softDeleteWorkflow _ _ _)
  | .canvas (.publishWorkflow _ _ _) | .canvas (.createWorkflowVersion _) | .canvas (.insertWorkflowExecution _ _) => False
  | .canvas _ => True
  | _ => False

/-- Those of them that neither write an execution nor record a metric. -/
def Op.consults : Op → Prop
  | .sys (.record _) => False
  | .canvas (.claimWorkflowNode _ _ _ _) | .canvas (.updateWorkflowNodeExecution _ _) | .canvas (.updateWorkflowExecution _ _)
  | .canvas (.finalizeWorkflowExecution _ _ _) | .canvas (.cancelWorkflowExecution _ _ _ _) => False
  | o => o.advances

theorem Op.advances_of_consults {o : Op} (h : o.consults) : o.advances := by
  unfold Op.consults at h
  split at h
  all_goals first
    | cases h
    | exact h

theorem Op.within_of_advances {f : Footprint} (runs : f.runs)
    (canvas : ∀ event : NewMetricEventInput, event.source = .taskCanvas → f.records event := by intros; trivial) (o : Op)
    (h : o.advances) : o.within f := by
  cases o with
  | sys o =>
    cases o with
    | record event => exact canvas event h
    | _ => simp_all [Op.within, Op.advances]
  | task o => cases o <;> simp_all [Op.within, Op.advances]
  | hook o => cases o <;> simp_all [Op.within, Op.advances]
  | canvas o => cases o <;> simp_all [Op.within, Op.advances]
  | worker => trivial
  | broker => cases h

/-- What the programs of an execution are made of: calls that change nothing, and the few programs that write to it, each with
    the metrics that it records. -/
structure Units (A : Op → Prop) (G : ∀ {α : Type}, Script α → Prop) : Prop where
  closed : Closed A G
  reads : ∀ o : Op, o.consults → A o
  updates : ∀ node expected, G (updateNode node expected)
  fails : ∀ execution code message, G (failExecution execution code message)
  marks : ∀ execution, G (markRunning execution)
  finalizes : ∀ definition nodes execution, G (finalizeExecutionIfComplete definition nodes execution)
  claims : ∀ {α : Type} (orgID executionID : UUID) (nodeID : String) (now : Time) (f : Option WorkflowNodeExecution → Script α),
    G (f none) → (∀ claimed, ∃ rest : Script α, f (some claimed) = (do
      record (nodeMetric claimed .nodeExecutionStarted "")
      rest) ∧ G rest) → G (canvas (.claimWorkflowNode orgID executionID nodeID now) >>= f)

section Executions
variable {A : Op → Prop} {G : ∀ {α : Type}, Script α → Prop}

/-! ### Calls -/

section Calls
variable (closed : Closed A G) (own : ∀ o : Op, o.advances → A o)
include closed own

theorem updateNode_in (node : WorkflowNodeExecution) (expected : WorkflowNodeExecutionStatus) :
    G (updateNode node expected) := by
  refine closed.perform (own _ trivial) fun updated => ?_
  have recorded : ∀ event : NewMetricEventInput, event.source = .taskCanvas → G (do
      record event
      pure updated) := fun event canvas => closed.perform (own _ canvas) fun _ => closed.ret _
  simp only
  split
  · split
    all_goals first
      | exact recorded _ rfl
      | exact closed.ret _
  · exact closed.ret _

theorem recordCancelled_in (nodes : List WorkflowNodeExecution) : G (recordCancelled nodes) := by
  induction nodes with
  | nil => exact closed.ret _
  | cons node rest ih =>
    unfold recordCancelled
    split
    · exact closed.perform (own _ rfl) fun _ => ih
    · exact ih

theorem failExecution_in (execution : WorkflowExecution) (code message : String) :
    G (failExecution execution code message) := by
  refine closed.perform (own _ trivial) fun now => closed.perform (own _ trivial) fun updated => ?_
  simp only
  split
  · refine closed.perform (own _ rfl) fun _ => closed.attempt (own _ trivial) fun answer => ?_
    split
    · exact closed.bind (recordCancelled_in closed own _) fun _ => closed.ret _
    · exact closed.ret _
  · exact closed.ret _

theorem touchRunningExecution_in (execution : WorkflowExecution) : G (touchRunningExecution execution) :=
  closed.perform (own _ trivial) fun _ => closed.perform (own _ trivial) fun _ => closed.ret _

theorem finalizeExecutionIfComplete_in (definition : WorkflowDefinition) (nodes : List WorkflowNodeExecution)
    (execution : WorkflowExecution) : G (finalizeExecutionIfComplete definition nodes execution) := by
  unfold finalizeExecutionIfComplete
  split
  · exact touchRunningExecution_in closed own _
  split
  · exact touchRunningExecution_in closed own _
  split
  · exact closed.fail _
  · refine closed.perform (own _ trivial) fun now => closed.perform (own _ trivial) fun updated => ?_
    split
    · exact closed.call _ _ (own _ rfl) fun answer => by
        cases answer with
        | ok _ => exact closed.ret _
        | error e => exact closed.fail e
    · exact closed.ret _

theorem markRunning_in (execution : WorkflowExecution) : G (markRunning execution) := by
  unfold markRunning
  split
  · refine closed.perform (own _ trivial) fun now => closed.perform (own _ trivial) fun updated => ?_
    simp only
    split
    · exact closed.perform (own _ rfl) fun _ => closed.ret _
    · exact closed.ret _
  · exact closed.ret _

theorem cancelExecution_in (orgID workflowID executionID : UUID) : G (cancelExecution orgID workflowID executionID) := by
  refine closed.perform (own _ trivial) fun now => closed.perform (own _ trivial) fun execution => ?_
  refine closed.perform (own _ rfl) fun _ => closed.attempt (own _ trivial) fun answer => ?_
  split
  · exact closed.bind (recordCancelled_in closed own _) fun _ => closed.ret _
  · exact closed.ret _

/-- A property that all the calls have. -/
theorem units_of_calls : Units A G where
  closed := closed
  reads := fun o consults => own o (Op.advances_of_consults consults)
  updates := updateNode_in closed own
  fails := failExecution_in closed own
  marks := markRunning_in closed own
  finalizes := finalizeExecutionIfComplete_in closed own
  claims := fun _ _ _ _ f lost won => by
    refine closed.perform (own _ trivial) fun claimed => ?_
    cases claimed with
    | none => exact lost
    | some claimed =>
      obtain ⟨rest, same, goes⟩ := won claimed
      rw [same]
      exact closed.perform (own _ rfl) fun _ => goes

end Calls

/-! ### The start -/

section Reads
variable (closed : Closed A G) (reads : ∀ o : Op, o.consults → A o)
include closed reads

theorem selectVersion_in (orgID workflowID : UUID) (requested : Option Int) :
    G (selectVersion orgID workflowID requested) := by
  have published : ∀ version : WorkflowVersion,
      G (if version.status ≠ .published then Script.fail .workflowVersionNotFound else pure version) := by
    intro version
    split
    · exact closed.fail _
    · exact closed.ret _
  unfold selectVersion
  split
  · simp only
    split
    · exact closed.fail _
    · exact closed.perform (reads _ trivial) published
  · exact closed.perform (reads _ trivial) published

theorem newNodeExecutions_in (orgID executionID : UUID) (now : Time) (nodes : List WorkflowNode) :
    G (newNodeExecutions orgID executionID now nodes) := by
  induction nodes with
  | nil => exact closed.ret _
  | cons node rest ih => exact closed.perform (reads _ trivial) fun _ => closed.bind ih fun _ => closed.ret _

omit reads in
theorem reuseExecution_in (existing : WorkflowExecution) (fingerprint : String) :
    G (reuseExecution existing fingerprint) := by
  unfold reuseExecution
  split
  · exact closed.fail _
  · exact closed.ret _

theorem createWorkflowExecution_in (execution : WorkflowExecution) (nodes : List WorkflowNodeExecution)
    (starts : A (.canvas (.insertWorkflowExecution execution nodes))) : G (createWorkflowExecution execution nodes) := by
  refine closed.attempt (reads _ trivial) fun answer => ?_
  split
  · exact reuseExecution_in closed _ _
  · refine closed.perform starts fun inserted => ?_
    split
    · exact closed.ret _
    · exact closed.perform (reads _ trivial) fun existing => reuseExecution_in closed existing _
  · exact closed.fail _

theorem admitExecution_in (h : Host) (input : StartWorkflowExecutionInput)
    (starts : ∀ x nodes, normalizeWorkflowExecutionInput input.input = some x.input →
      A (.canvas (.insertWorkflowExecution x nodes))) : G (admitExecution h input) := by
  unfold admitExecution
  simp only
  split
  · exact closed.fail _
  · refine closed.perform (reads _ trivial) fun workflow => ?_
    split
    · exact closed.fail _
    · refine closed.bind (selectVersion_in closed reads _ _ _) fun version => ?_
      split
      · exact closed.fail _
      · rename_i normalized
        split
        · exact closed.fail _
        · refine closed.perform (reads _ trivial) fun now => closed.perform (reads _ trivial) fun id => ?_
          exact closed.bind (newNodeExecutions_in closed reads _ _ _ _) fun nodes =>
            createWorkflowExecution_in closed reads _ _ (starts _ _ normalized)

end Reads

/-! ### Advancing -/

section Advancing
variable (units : Units A G)
include units

theorem failClaimedNode_in (execution : WorkflowExecution) (node : WorkflowNodeExecution) (code message : String) :
    G (failClaimedNode execution node code message) :=
  units.closed.perform (units.reads _ trivial) fun _ => units.closed.bind (units.updates _ _) fun _ =>
    units.fails _ _ _

theorem storeObserved_in (row node : WorkflowNodeExecution) (now : Time) : G (storeObserved row node now) := by
  unfold storeObserved
  split
  · exact units.updates _ _
  · exact units.closed.ret _

variable (h : Host)
  (tasks : ∀ orgID executionID nodeID config input, G (dispatchWorkflowTask h orgID executionID nodeID config input))
  (posts : ∀ execution node input, G (dispatchWorkflowWebhook h execution node input))
include tasks posts

theorem executeClaimedNode_in (execution : WorkflowExecution) (definitionNode : WorkflowNode)
    (node : WorkflowNodeExecution) : G (executeClaimedNode h execution definitionNode node) := by
  have stored : ∀ node, G (do
      let _ ← updateNode node .running
      pure execution : Script WorkflowExecution) :=
    fun _ => units.closed.bind (units.updates _ _) fun _ => units.closed.ret _
  have failed : ∀ node code message, G (failClaimedNode execution node code message) :=
    fun _ _ _ => failClaimedNode_in units _ _ _ _
  refine units.closed.perform (units.reads _ trivial) fun now => ?_
  simp only
  split
  · exact stored _
  · split
    · exact failed _ _ _
    · split
      · exact failed _ _ _
      · exact stored _
  · split
    · exact failed _ _ _
    · exact stored _
  · refine units.closed.bind (tasks _ _ _ _ _) fun result => ?_
    split
    · exact failed _ _ _
    · exact stored _
  · refine units.closed.bind (posts _ _ _) fun result => ?_
    split
    · exact failed _ _ _
    · exact stored _
  · exact failed _ _ _

theorem reconcileNode_in (definition : WorkflowDefinition) (execution : WorkflowExecution)
    (node : WorkflowNodeExecution) : G (reconcileNode h definition execution node) := by
  have stored : ∀ row now, G (do
      let updated ← storeObserved node row now
      pure (updated, execution) : Script (Bool × WorkflowExecution)) :=
    fun _ _ => units.closed.bind (storeObserved_in units _ _ _) fun _ => units.closed.ret _
  unfold reconcileNode
  refine units.closed.perform (units.reads _ trivial) fun now => ?_
  split
  · refine units.closed.attempt (units.reads _ trivial) fun answer => ?_
    split
    · exact units.closed.ret _
    · exact units.closed.fail _
    · exact stored _ _
  · refine units.closed.attempt (units.reads _ trivial) fun answer => ?_
    split
    · exact units.closed.ret _
    · exact units.closed.fail _
    · exact stored _ _
  · split
    · exact stored _ _
    · split
      · split
        · exact units.closed.ret _
        · split
          · exact units.closed.fail _
          · refine units.closed.perform (units.reads _ trivial) fun _ => ?_
            exact units.closed.bind (executeClaimedNode_in units h tasks posts _ _ _) fun _ => units.closed.ret _
      · exact stored _ _

theorem reconcileExternalNodes_in (definition : WorkflowDefinition) (nodes : List WorkflowNodeExecution)
    (changed : Bool) (execution : WorkflowExecution) :
    G (reconcileExternalNodes h definition nodes changed execution) := by
  induction nodes generalizing changed execution with
  | nil => exact units.closed.ret _
  | cons node rest ih =>
    unfold reconcileExternalNodes
    split
    · exact units.closed.bind (reconcileNode_in units h tasks posts _ _ _) fun _ => ih _ _
    · exact ih _ _

theorem scheduleRunnableNodes_in (definition : WorkflowDefinition) (nodes : List WorkflowNodeExecution)
    (execution : WorkflowExecution) (rest : List WorkflowNode) :
    G (scheduleRunnableNodes h definition nodes execution rest) := by
  induction rest with
  | nil => exact units.closed.ret _
  | cons definitionNode rest ih =>
    unfold scheduleRunnableNodes
    split
    · split
      · exact units.closed.fail _
      · exact ih
      · refine units.closed.perform (units.reads _ trivial) fun now => units.claims _ _ _ _ _ ih fun claimed => ⟨_, rfl, ?_⟩
        split
        · refine units.closed.perform (units.reads _ trivial) fun _ => ?_
          exact units.closed.bind (units.updates _ _) fun _ => units.closed.ret _
        · exact units.closed.bind (executeClaimedNode_in units h tasks posts _ _ _) fun _ => units.closed.ret _
    · exact ih

theorem advanceLoop_in (definition : WorkflowDefinition) (rounds : Nat) (execution : WorkflowExecution) :
    G (advanceLoop h definition rounds execution) := by
  induction rounds generalizing execution with
  | zero => exact units.closed.ret _
  | succ rounds ih =>
    unfold advanceLoop
    refine units.closed.perform (units.reads _ trivial) fun nodes => ?_
    refine units.closed.bind (reconcileExternalNodes_in units h tasks posts _ _ _ _) fun ⟨changed, execution⟩ => ?_
    simp only
    split
    · exact ih _
    · refine units.closed.perform (units.reads _ trivial) fun nodes => ?_
      split
      · exact units.closed.bind (units.fails _ _ _) fun _ => units.closed.ret _
      · refine units.closed.bind (scheduleRunnableNodes_in units h tasks posts _ _ _ _) fun ⟨progressed, execution⟩ => ?_
        simp only
        split
        · exact ih _
        · exact units.finalizes _ _ _

theorem advanceExecution_in (orgID workflowID executionID : UUID) :
    G (advanceExecution h orgID workflowID executionID) := by
  refine units.closed.perform (units.reads _ trivial) fun execution => ?_
  split
  · exact units.closed.ret _
  · refine units.closed.perform (units.reads _ trivial) fun version => ?_
    split
    · exact units.closed.fail _
    · exact units.closed.bind (units.marks _) fun _ => advanceLoop_in units h tasks posts _ _ _

theorem reconcileAll_in (executions : List WorkflowExecution) : G (reconcileAll h executions) := by
  induction executions with
  | nil => exact units.closed.ret _
  | cons execution rest ih =>
    exact units.closed.bind (units.closed.catched (advanceExecution_in units h tasks posts _ _ _)) fun _ => ih

theorem reconcileActive_in (limit : Int) : G (reconcileActive h limit) :=
  units.closed.perform (units.reads _ trivial) fun executions => reconcileAll_in units h tasks posts executions

end Advancing

/-! ### Requests -/

section Requests
variable (closed : Closed A G) (own : ∀ o : Op, o.advances → A o) (h : Host)
  (tasks : ∀ orgID executionID nodeID config input, G (dispatchWorkflowTask h orgID executionID nodeID config input))
  (posts : ∀ execution node input, G (dispatchWorkflowWebhook h execution node input))
include closed own tasks posts

theorem startExecution_in (input : StartWorkflowExecutionInput)
    (starts : ∀ x nodes, normalizeWorkflowExecutionInput input.input = some x.input →
      A (.canvas (.insertWorkflowExecution x nodes))) : G (startExecution h input) := by
  refine closed.bind (admitExecution_in closed (fun o consults => own o (Op.advances_of_consults consults)) h input starts) fun ⟨execution, reused⟩ => ?_
  have rest : G (do
      advanceExecution h execution.orgID execution.workflowID execution.id
      let current ← Script.canvas (.getWorkflowExecution execution.orgID execution.workflowID execution.id)
      pure ((⟨current.id, current.workflowID, current.workflowVersion, current.status, current.createdAt⟩ :
        WorkflowExecutionStartResult), reused)) :=
    closed.bind (advanceExecution_in (units_of_calls closed own) h tasks posts _ _ _) fun _ =>
      closed.perform (own _ trivial) fun _ => closed.ret _
  simp only
  split
  · exact closed.fail _
  · split
    · exact closed.perform (own _ rfl) fun _ => rest
    · exact rest

/-- A property of programs that the dispatchers have, every request of the workflow service has. -/
theorem workflowBody_in {request : Request} (workflow : request.workflow = true)
    (starts : ∀ x nodes, A (.canvas (.insertWorkflowExecution x nodes))) : G (body h request) := by
  cases request with
  | startExecution input =>
    exact closed.bind (startExecution_in closed own h tasks posts input fun x nodes _ => starts x nodes) fun _ => closed.ret _
  | advanceExecution orgID workflowID executionID =>
    exact closed.bind (advanceExecution_in (units_of_calls closed own) h tasks posts _ _ _) fun _ => closed.ret _
  | cancelExecution orgID workflowID executionID =>
    exact closed.bind (cancelExecution_in closed own _ _ _) fun _ => closed.ret _
  | reconcileActive limit =>
    exact closed.bind (reconcileActive_in (units_of_calls closed own) h tasks posts limit) fun _ => closed.ret _
  | _ => cases workflow

end Requests

end Executions

end Windylane
