import Windylane.Theorems.Composition

/-! What the programs of the services can call. A footprint is proved once for each program; the disciplines of
    the later modules read off it that a program does not touch what it does not own. -/

namespace Windylane

open Conc Script Prog

-- the conditions on texts are not decided here
seal trimSpace

/-- A delivery of a task event, as it is created. -/
structure NewEvent (delivery : WebhookDelivery) : Prop where
  status : delivery.status = .pending
  attemptCount : delivery.attemptCount = 0
  eventType : delivery.eventType ≠ .workflowNode

/-- A task with all its attempts, as it is created. -/
structure NewTask (t : Task) : Prop where
  status : t.status = .pending
  attempts : t.attempts = 0
  budget : 0 < t.maxAttempts

theorem requestedTask_new {input : CreateTaskInput} (retries : 0 ≤ input.maxRetries) (fingerprint : String)
    (payload : RawMessage) (id : UUID) (now : Time) : NewTask (requestedTask input fingerprint payload id now) := by
  unfold requestedTask
  split <;> exact ⟨rfl, rfl, Int.lt_add_one_of_le retries⟩

/-- The retries of a task node are in range. -/
theorem parseWorkflowTaskConfig_retries {config : Option (List (String × Json))} {parsed : WorkflowTaskConfig}
    (ok : parseWorkflowTaskConfig config = .ok parsed) : 0 ≤ parsed.maxRetries := by
  unfold parseWorkflowTaskConfig at ok
  cases hd : decodeWorkflowNodeConfig config ["queue", "payload", "priority", "max_retries", "timeout_seconds"]
      WorkflowTaskConfig.assign ⟨"", .empty, 0, 0, 0⟩ with
  | error e =>
    rw [hd] at ok
    cases ok
  | ok result =>
    rw [hd] at ok
    simp only [Bind.bind, Except.bind, throw, throwThe, MonadExceptOf.throw] at ok
    repeat' split at ok
    all_goals cases ok
    rename_i retries _ _
    show 0 ≤ result.maxRetries
    omega

/-- The message that a call sends, and the priority that it gives it. -/
def BrokerOp.entering : BrokerOp → Option (UUID × Int)
  | .enqueue _ _ id priority | .enqueueDelayed _ _ id priority _ => some (id, priority)
  | _ => none

/-- The footprint allows to move messages, but not to send them. -/
def Footprint.Moving (f : Footprint) : Prop := ∀ o : BrokerOp, o.entering = none → f.messages o

/-- The footprint allows to send messages. -/
def Footprint.Sending (f : Footprint) : Prop := ∀ o : BrokerOp, f.messages o

variable {f : Footprint}

/-! ### Task service -/

theorem retryTask_calls (sent : f.Sending) (orgID id : UUID) : (retryTask orgID id).Calls (Op.within f) := by
  simp [retryTask, perform, attempt, Op.within, sent _]

theorem softDeleteTask_calls (moved : f.Moving) (orgID id : UUID) :
    (softDeleteTask orgID id).Calls (Op.within f) := by
  simp [softDeleteTask, perform, attempt, Op.within, moved (.remove _ _ _) rfl]

/-- The footprint allows to record metrics of tasks and deliveries. -/
def Footprint.Recording (f : Footprint) : Prop :=
  ∀ event : NewMetricEventInput, event.source = .queueFlow ∨ event.source = .eventForge → f.records event

theorem Footprint.Recording.task (noted : f.Recording) (task : Task) (eventType : MetricEventType) (now : Time)
    (errorCode : String) : f.records (taskMetric task eventType now errorCode) := noted _ (Or.inl rfl)

theorem Footprint.Recording.created (noted : f.Recording) (d : WebhookDelivery) : f.records (deliveryCreated d) :=
  noted _ (Or.inr rfl)

section Tasks
variable (events : ∀ d, NewEvent d → f.deliver d)
include events

theorem createDeliveries_calls (h : Host) {eventType : WebhookEventType} (valid : eventType.valid = true) (task : Task)
    (payload : Json) (now : Time) (endpoints : List WebhookEndpoint)
    (created : ∀ d, f.records (deliveryCreated d) := by intros; trivial) :
    (createDeliveries h eventType task payload now endpoints).Calls (Op.within f) := by
  have new : ∀ id endpointID,
      f.deliver (newDelivery id task.orgID endpointID eventType payload h.maxAttempts now) :=
    fun _ _ => events _ ⟨rfl, rfl, fun he => by cases eventType <;> cases he; cases valid⟩
  induction endpoints with
  | nil => trivial
  | cons endpoint rest ih =>
    simp only [createDeliveries, perform, attempt, call_bind, ret_bind, fail_bind, calls_call, calls_fail,
      forall_answer, Op.within, SysOp.within, HookOp.within, new, created, ih, implies_true, and_true, true_and]
    exact fun _ _ => ih.bind fun _ => trivial

theorem publishTaskEvent_calls (h : Host) (eventType : WebhookEventType) (task : Task)
    (created : ∀ d, f.records (deliveryCreated d) := by intros; trivial) :
    (publishTaskEvent h eventType task).Calls (Op.within f) := by
  unfold publishTaskEvent
  split
  · rename_i valid
    simp [perform, attempt, Op.within, createDeliveries_calls events h valid _ _ _ _ created]
  · trivial

theorem dispatchCreated_calls (sent : f.Sending) (h : Host) (task : Task)
    (noted : f.Recording := by intros _ _; trivial) : (dispatchCreated h task).Calls (Op.within f) := by
  have ingested : f.records (taskIngested task) := noted _ (Or.inl rfl)
  simp only [dispatchCreated, perform, call_bind, ret_bind, fail_bind, calls_call, calls_fail, forall_answer,
    Op.within, SysOp.within, ingested, implies_true, true_and]
  refine fun _ => (publishTaskEvent_calls events h _ _ noted.created).bind fun _ => ?_
  simp [attempt, Op.within, sent _]

theorem createTask_calls (sent : f.Sending) (h : Host) (input : CreateTaskInput)
    (tasks : ∀ fingerprint payload, requestFingerprint h input = some (fingerprint, payload) → ∀ id now,
      f.create (requestedTask input fingerprint payload id now))
    (noted : f.Recording := by intros _ _; trivial) : (createTask h input).Calls (Op.within f) := by
  unfold createTask
  split
  · trivial
  · rename_i request
    simp only [perform, attempt, call_bind, ret_bind, calls_call, forall_answer, Op.within,
        TaskOp.within, true_and]
    refine ⟨fun e => ?_, fun _ => trivial⟩
    split
    · trivial
    · rename_i heq
      cases heq
      simp only [calls_call, calls_fail, ret_bind, fail_bind, forall_answer, Op.within, SysOp.within, TaskOp.within,
        implies_true, true_and]
      intro now id
      refine ⟨tasks _ _ request _ _, fun e => ?_, fun _ => dispatchCreated_calls events sent h _ noted⟩
      split
      · rename_i heq
        cases heq
      · simp [Op.within]
      · trivial
    · trivial

theorem cancelTask_calls (moved : f.Moving) (h : Host) (orgID id : UUID)
    (noted : f.Recording := by intros _ _; trivial) : (cancelTask h orgID id).Calls (Op.within f) := by
  have cancelled : ∀ task, f.records (taskCancelled task) := fun _ => noted _ (Or.inl rfl)
  simp only [cancelTask, perform, attempt, call_bind, ret_bind, fail_bind, calls_call, calls_fail, forall_answer,
    Op.within, SysOp.within, TaskOp.within, pure_eq, calls_ret, implies_true, true_and,
    moved (.remove _ _ _) rfl, cancelled]
  intro _ task
  have published : (publishTaskEvent h .taskCancelled task).Calls (Op.within f) :=
    publishTaskEvent_calls events h _ _ noted.created
  exact ⟨fun _ _ => published.bind fun _ => trivial, fun _ _ => published.bind fun _ => trivial⟩

/-! ### Engine and pool -/

section Results
variable (moved : f.Moving) (results : f.results) (noted : f.Recording)
include moved results noted

theorem handleFailure_calls (h : Host) (task : Task) (execErr : String) (now : Time) :
    (handleFailure h task execErr now).Calls (Op.within f) := by
  simp only [handleFailure, perform, attempt, call_bind, ret_bind, fail_bind, calls_call, calls_fail, calls_ite,
    forall_answer, Op.within, SysOp.within, TaskOp.within, results, noted.task, implies_true, true_and]
  constructor
  · refine fun _ => ⟨fun _ => trivial, fun _ _ _ => (publishTaskEvent_calls events h _ _ noted.created).bind fun _ => ?_⟩
    simp [Op.within, moved (.moveToDeadLetter _ _ _) rfl]
  · refine fun _ => ⟨fun _ => trivial, fun _ _ _ => (publishTaskEvent_calls events h _ _ noted.created).bind fun _ => ?_⟩
    simp [Op.within, moved (.nack _ _ _ _) rfl]

theorem execute_calls (h : Host) (task : Task) :
    (execute h task).Calls (Op.within f) := by
  simp only [execute, perform, call_bind, ret_bind, fail_bind, calls_call, calls_fail, forall_answer, Op.within,
    SysOp.within, implies_true, true_and]
  intro failed now
  cases failed with
  | some execErr => exact handleFailure_calls events moved results noted h task execErr now
  | none =>
    simp only [attempt, call_bind, ret_bind, fail_bind, calls_call, calls_fail, forall_answer, Op.within,
      SysOp.within, TaskOp.within, results, noted.task, implies_true, true_and]
    refine ⟨fun _ => trivial, fun _ _ => (publishTaskEvent_calls events h _ _ noted.created).bind fun _ => ?_⟩
    simp [Op.within, moved (.ack _ _ _) rfl]

theorem process_calls (h : Host) (orgID : UUID) (queue workerID : String) (taskID : UUID) :
    (process h orgID queue workerID taskID).Calls (Op.within f) := by
  simp only [process, publishProcessingEvent, perform, attempt, call_bind, ret_bind, fail_bind, calls_call,
    calls_fail, forall_answer, Op.within, SysOp.within, TaskOp.within, results, noted.task, implies_true, true_and,
    bind_assoc]
  refine fun now => ⟨fun _ => by simp [moved (.ack _ _ _) rfl], fun task => ?_⟩
  refine fun _ _ => (publishTaskEvent_calls events h _ _ noted.created).bind fun _ => ?_
  exact (execute_calls events moved results noted h task).bind fun _ => trivial

theorem dispatch_calls (h : Host) (orgID : UUID) (queue workerID : String) :
    (dispatch h orgID queue workerID).Calls (Op.within f) := by
  simp only [dispatch, attempt, call_bind, ret_bind, calls_call, forall_answer, Op.within, moved (.dequeue _ _) rfl,
    true_and]
  exact ⟨fun _ => trivial, fun taskID => process_calls events moved results noted h orgID queue workerID taskID⟩

end Results
end Tasks

theorem heartbeatTick_calls (orgID taskID : UUID) (workerID : String) (visibilityTimeout : Duration) :
    (heartbeatTick orgID taskID workerID visibilityTimeout).Calls (Op.within f) := by
  simp [heartbeatTick, perform, attempt, Op.within]

theorem promotionTick_calls (moved : f.Moving) (orgID : UUID) (queue : String) :
    (promotionTick orgID queue).Calls (Op.within f) := by
  simp [promotionTick, attempt, Op.within, moved (.promoteDueDelayed _ _) rfl]

section Sending
variable (sent : f.Sending)
include sent

theorem redispatch_calls (orgID : UUID) (tasks : List Task) :
    (redispatch orgID tasks).Calls (Op.within f) := by
  induction tasks with
  | nil => trivial
  | cons task rest ih => simp [redispatch, perform, attempt, Op.within, sent _, ih]

theorem reclaimTick_calls (orgID : UUID) (queue : String) :
    (reclaimTick orgID queue).Calls (Op.within f) := by
  simp [reclaimTick, perform, attempt, Op.within, redispatch_calls sent]

theorem reconciliationTick_calls (orgID : UUID) (queue : String) :
    (reconciliationTick orgID queue).Calls (Op.within f) := by
  simp [reconciliationTick, attempt, Op.within, redispatch_calls sent]

end Sending

/-! ### Dispatchers -/

theorem dispatchWorkflowTask_calls (events : ∀ d, NewEvent d → f.deliver d) (sent : f.Sending) (h : Host) (orgID executionID : UUID)
    (nodeID : String) (config : Option (List (String × Json))) (executionInput : RawMessage)
    (tasks : ∀ t : Task, t.idempotencyKey = workflowTaskKey executionID nodeID → NewTask t → f.create t)
    (noted : f.Recording := by intros _ _; trivial) :
    (dispatchWorkflowTask h orgID executionID nodeID config executionInput).Calls
      (Op.within f) := by
  unfold dispatchWorkflowTask
  split
  · trivial
  · rename_i parsed hparsed
    refine createTask_calls events sent h _ (fun _ _ _ _ _ => tasks _ rfl (requestedTask_new ?_ _ _ _ _)) noted
    exact parseWorkflowTaskConfig_retries hparsed

/-- A delivery for a node, as it is created. -/
def NodeDelivery (executionID : UUID) (nodeID : String) (d : WebhookDelivery) : Prop :=
  d.status = .pending ∧ d.attemptCount = 0 ∧ d.eventType = .workflowNode ∧
    ∃ h eventID now execution input, execution.id = executionID ∧
      d.payload = .json (workflowWebhookPayload h eventID now execution nodeID input)

theorem dispatchWorkflowWebhook_calls (h : Host) (execution : WorkflowExecution) (node : WorkflowNode)
    (executionInput : RawMessage) (posts : ∀ d, NodeDelivery execution.id node.id d → f.deliver d)
    (created : ∀ d, f.records (deliveryCreated d) := by intros; trivial) :
    (dispatchWorkflowWebhook h execution node executionInput).Calls (Op.within f) := by
  unfold dispatchWorkflowWebhook
  split
  · trivial
  split
  · trivial
  · simp only [perform, attempt, call_bind, ret_bind, fail_bind, calls_call, calls_fail, calls_ite, forall_answer,
        Op.within, SysOp.within, HookOp.within, created, pure_eq, calls_ret, implies_true, true_and, and_true]
    exact fun _ _ _ now eventID => posts _ ⟨rfl, rfl, rfl, h, eventID, now, execution, _, rfl, rfl⟩

theorem retryDelivery_calls (orgID id : UUID) :
    (retryDelivery orgID id).Calls (Op.within f) := by
  simp only [retryDelivery, perform, call_bind, ret_bind, fail_bind, calls_call, calls_fail, calls_ite, forall_answer,
    Op.within, SysOp.within, HookOp.within, implies_true, true_and]
  intro _ _ _ delivery
  cases delivery <;> simp [Op.within]

/-! ### Webhook worker -/

section Worker
variable (deliveries : f.deliveries) (noted : f.Recording)
include deliveries noted

theorem recordFailure_calls (h : Host) (d : WebhookDelivery) (response : Option WebhookHTTPResponse) (message : String)
    (now : Time) : (recordFailure h d response message now).Calls (Op.within f) := by
  refine ⟨deliveries, fun answer => ?_⟩
  cases answer with
  | error => trivial
  | ok =>
    refine ⟨noted _ (Or.inr rfl), fun answer => ?_⟩
    cases answer with
    | error => trivial
    | ok =>
      simp only
      split <;> exact ⟨noted _ (Or.inr rfl), fun answer => by cases answer <;> trivial⟩

theorem recordResponse_calls (h : Host) (d : WebhookDelivery) (now : Time)
    (response : Except String WebhookHTTPResponse) : (recordResponse h d now response).Calls (Op.within f) := by
  unfold recordResponse
  split
  · exact recordFailure_calls deliveries noted _ _ _ _ _
  split
  · exact recordFailure_calls deliveries noted _ _ _ _ _
  · refine ⟨deliveries, fun answer => ?_⟩
    cases answer with
    | error => trivial
    | ok => exact ⟨noted _ (Or.inr rfl), fun answer => by cases answer <;> trivial⟩

variable (sends : f.sends)
include sends

theorem processDelivery_calls (h : Host) (d : WebhookDelivery) (now : Time) :
    (processDelivery h d now).Calls (Op.within f) := by
  refine ⟨trivial, fun answer => ?_⟩
  cases answer with
  | error => exact recordFailure_calls deliveries noted _ _ _ _ _
  | ok endpoint =>
    simp only [Prog.bind]
    split
    · exact recordFailure_calls deliveries noted _ _ _ _ _
    split
    · exact recordFailure_calls deliveries noted _ _ _ _ _
    · refine ⟨sends, fun answer => ?_⟩
      cases answer with
      | error => trivial
      | ok => exact recordResponse_calls deliveries noted _ _ _ _

theorem processDeliveries_calls (h : Host) (now : Time) (ds : List WebhookDelivery) :
    (processDeliveries h now ds).Calls (Op.within f) := by
  induction ds with
  | nil => trivial
  | cons d rest ih =>
    refine ⟨noted _ (Or.inr rfl), fun answer => ?_⟩
    cases answer with
    | error => trivial
    | ok => exact (processDelivery_calls deliveries noted sends h d now).bind fun _ => ih

theorem processDue_calls (h : Host) : (processDue h).Calls (Op.within f) := by
  refine ⟨trivial, fun answer => ?_⟩
  cases answer with
  | error => trivial
  | ok now =>
    refine ⟨deliveries, fun answer => ?_⟩
    cases answer with
    | error => trivial
    | ok ds => exact processDeliveries_calls deliveries noted sends h now ds

end Worker

/-! ### Queries and edits -/

theorem page_calls {P : Op → Prop} {ρ : Type} (h : Host) (key : ρ → Time × UUID) (cursor : String) (limit : Int)
    {select : Cursor → Nat → Script (List ρ)} (selects : ∀ after limit, (select after limit).Calls P) :
    (h.page key cursor limit select).Calls P := by
  unfold Host.page
  split
  · trivial
  · exact (selects _ _).bind fun _ => trivial

theorem queryBody_calls (h : Host) (query : Query) : (queryBody h query).Calls (Op.within f) := by
  cases query with
  | getTask | queueStats | listWorkers | getDelivery | getEndpoint | listEndpoints =>
    exact ⟨trivial, fun answer => by cases answer <;> trivial⟩
  | getWorkflow | validateWorkflow =>
    exact ⟨trivial, fun answer => by cases answer <;> trivial⟩
  | listWorkflowVersions | getExecution =>
    refine ⟨trivial, fun answer => ?_⟩
    cases answer with
    | error e => trivial
    | ok found => exact ⟨trivial, fun answer => by cases answer <;> trivial⟩
  | getWorkflowVersion =>
    refine Calls.bind (calls_ite.2 ⟨fun _ => trivial, fun _ => ?_⟩) fun _ => trivial
    exact ⟨trivial, fun answer => by cases answer <;> trivial⟩
  | listTasks orgID filter =>
    refine Calls.bind (page_calls h _ _ _ fun after limit => ?_) fun _ => trivial
    exact ⟨trivial, fun answer => by cases answer <;> trivial⟩
  | listDLQ orgID queue cursor limit =>
    refine Calls.bind (p := listTasks h orgID _) ?_ fun _ => trivial
    refine page_calls h _ _ _ fun after limit => ?_
    exact ⟨trivial, fun answer => by cases answer <;> trivial⟩
  | listDeliveries orgID filter =>
    refine Calls.bind (calls_ite.2 ⟨fun _ => trivial, fun _ => calls_ite.2 ⟨fun _ => trivial, fun _ => ?_⟩⟩) fun _ => trivial
    refine page_calls h _ _ _ fun after limit => ?_
    exact ⟨trivial, fun answer => by cases answer <;> trivial⟩
  | listWorkflows orgID filter =>
    refine Calls.bind (calls_ite.2 ⟨fun _ => trivial, fun _ => page_calls h _ _ _ fun after limit => ?_⟩) fun _ => trivial
    exact ⟨trivial, fun answer => by cases answer <;> trivial⟩
  | listExecutions orgID workflowID filter =>
    refine Calls.bind (calls_ite.2 ⟨fun _ => trivial, fun _ => Calls.bind ?_ fun _ => ?_⟩) fun _ => trivial
    · exact ⟨trivial, fun answer => by cases answer <;> trivial⟩
    · refine page_calls h _ _ _ fun after limit => ?_
      exact ⟨trivial, fun answer => by cases answer <;> trivial⟩

section Edits
variable (workflows : f.workflows)
include workflows

theorem createWorkflow_calls (h : Host) (input : CreateWorkflowInput) :
    (createWorkflow h input).Calls (Op.within f) := by
  unfold createWorkflow
  split
  · trivial
  · simp [perform, Op.within, workflows]

theorem updateWorkflow_calls (h : Host) (orgID id : UUID) (input : UpdateWorkflowInput) :
    (updateWorkflow h orgID id input).Calls (Op.within f) := by
  refine calls_ite.2 ⟨fun _ => trivial, fun _ => ⟨trivial, fun answer => ?_⟩⟩
  cases answer with
  | error e => trivial
  | ok workflow =>
    refine calls_ite.2 ⟨fun _ => trivial, fun _ => ?_⟩
    split
    · trivial
    · simp [perform, Op.within, workflows]

theorem publishWorkflow_calls (h : Host) (orgID id : UUID) :
    (publishWorkflow h orgID id).Calls (Op.within f) := by
  refine ⟨trivial, fun answer => ?_⟩
  cases answer with
  | error e => trivial
  | ok workflow =>
    refine calls_ite.2 ⟨fun _ => trivial, fun _ => ?_⟩
    simp [perform, Op.within, workflows]

theorem editBody_calls (h : Host) (edit : Edit) : (editBody h edit).Calls (Op.within f) := by
  cases edit with
  | createWorkflow input => exact (createWorkflow_calls workflows h input).bind fun _ => trivial
  | updateWorkflow orgID id input => exact (updateWorkflow_calls workflows h orgID id input).bind fun _ => trivial
  | deleteWorkflow orgID id =>
    refine Calls.bind ?_ fun _ => trivial
    simp [deleteWorkflow, perform, Op.within, workflows]
  | publishWorkflow orgID id => exact (publishWorkflow_calls workflows h orgID id).bind fun _ => trivial

end Edits

theorem encryptSecret_calls (secret : String) : (encryptSecret secret).Calls (Op.within f) := by
  refine ⟨trivial, fun answer => ?_⟩
  cases answer with
  | error e => trivial
  | ok encrypted => cases encrypted <;> trivial

theorem generateWebhookSecret_calls : generateWebhookSecret.Calls (Op.within f) := by
  refine ⟨trivial, fun answer => ?_⟩
  cases answer with
  | error e => trivial
  | ok generated => cases generated <;> trivial

theorem resecretEndpoint_calls (h : Host) (input : UpdateWebhookEndpointInput) (endpoint : WebhookEndpoint) :
    (resecretEndpoint h input endpoint).Calls (Op.within f) := by
  unfold resecretEndpoint
  split
  · trivial
  · exact calls_ite.2 ⟨fun _ => trivial, fun _ => (encryptSecret_calls _).bind fun _ => trivial⟩

theorem secretOrNew_calls (secret : String) : (secretOrNew secret).Calls (Op.within f) :=
  calls_ite.2 ⟨fun _ => generateWebhookSecret_calls, fun _ => trivial⟩

section Endpoints
variable (endpoints : f.endpoints)
include endpoints

theorem createEndpoint_calls (h : Host) (input : CreateWebhookEndpointInput) :
    (createEndpoint h input).Calls (Op.within f) := by
  unfold createEndpoint
  refine calls_ite.2 ⟨fun _ => trivial, fun _ => calls_ite.2 ⟨fun _ => trivial, fun _ => ?_⟩⟩
  split
  · trivial
  · refine Calls.bind (secretOrNew_calls _) fun secret => Calls.bind (encryptSecret_calls secret) fun ciphertext => ?_
    simp [perform, Op.within, endpoints]

theorem updateEndpoint_calls (h : Host) (orgID id : UUID) (input : UpdateWebhookEndpointInput) :
    (updateEndpoint h orgID id input).Calls (Op.within f) := by
  unfold updateEndpoint
  refine calls_ite.2 ⟨fun _ => trivial, fun _ => ?_⟩
  simp only [perform, call_bind, ret_bind, fail_bind, calls_call, calls_fail, forall_answer, Op.within, HookOp.within, true_and, implies_true]
  intro endpoint
  split
  · trivial
  · refine Calls.bind (resecretEndpoint_calls h input _) fun endpoint => ?_
    split
    · trivial
    · simp [Op.within, endpoints]

theorem rotateSecret_calls (h : Host) (orgID id : UUID) :
    (rotateSecret h orgID id).Calls (Op.within f) := by
  unfold rotateSecret
  refine ⟨trivial, fun answer => ?_⟩
  cases answer with
  | error e => trivial
  | ok endpoint =>
    refine Calls.bind (p := generateWebhookSecret) generateWebhookSecret_calls fun secret => ?_
    refine Calls.bind (encryptSecret_calls secret) fun ciphertext => ?_
    simp [perform, Op.within, endpoints]

theorem endpointBody_calls (h : Host) (edit : EndpointEdit) :
    (endpointBody h edit).Calls (Op.within f) := by
  cases edit with
  | createEndpoint input => exact Calls.bind (createEndpoint_calls endpoints h input) fun _ => trivial
  | updateEndpoint orgID id input => exact Calls.bind (updateEndpoint_calls endpoints h orgID id input) fun _ => trivial
  | deleteEndpoint orgID id =>
    refine Calls.bind ?_ fun _ => trivial
    simp [deleteEndpoint, perform, Op.within, endpoints]
  | rotateSecret orgID id => exact Calls.bind (rotateSecret_calls endpoints h orgID id) fun _ => trivial

end Endpoints

theorem workerHeartbeat_calls (worker : Worker) : (workerHeartbeat worker).Calls (Op.within f) := by
  simp [workerHeartbeat, perform, Op.within]

/-! ### Requests -/

/-- A delivery as it is created. -/
structure NewDelivery (delivery : WebhookDelivery) : Prop where
  status : delivery.status = .pending
  attemptCount : delivery.attemptCount = 0

/-- Everything but claiming deliveries and storing their results. -/
abbrev Footprint.unclaiming : Footprint where
  runs := True
  workflows := True
  endpoints := True
  results := True
  sends := False
  deliveries := False
  create := fun _ => True
  deliver := NewDelivery

/-- Calls that claim and finish no delivery. -/
def Op.unclaiming : Op → Prop := Op.within Footprint.unclaiming

/-- The requests that send messages of tasks. -/
def Request.sending : Request → Bool
  | .createTask _ | .retryTask _ _ | .reclaim _ _ | .reconciliation _ _ => true
  | request => request.workflow

/-- The requests that record metrics of tasks and deliveries. -/
def Request.noting : Request → Bool
  | .createTask _ | .cancelTask _ _ | .dispatch _ _ _ | .processDue => true
  | request => request.workflow

/-- The footprint allows what the request does. -/
structure Request.Fits (request : Request) (f : Footprint) : Prop where
  runs : request.workflow = true → f.runs
  workflows : ∀ edit, request = .edit edit → f.workflows
  endpoints : ∀ edit, request = .endpoint edit → f.endpoints
  results : ∀ orgID queue workerID, request = .dispatch orgID queue workerID → f.results
  sends : request = .processDue → f.sends
  deliveries : request = .processDue → f.deliveries
  requested : ∀ input, request = .createTask input → ∀ fingerprint payload id now,
    f.create (requestedTask input fingerprint payload id now)
  dispatched : request.workflow = true → ∀ t, NewTask t → f.create t
  events : ∀ d, NewEvent d → f.deliver d
  posts : request.workflow = true → ∀ executionID nodeID d, NodeDelivery executionID nodeID d → f.deliver d
  messages : ∀ o : BrokerOp, (request.sending = false → o.entering = none) → f.messages o := by intros; trivial
  records : ∀ event : NewMetricEventInput, (request.noting = false → event.source = .taskCanvas) →
    (request.workflow = false → event.source = .queueFlow ∨ event.source = .eventForge) → f.records event := by intros; trivial

/-- A request keeps to every footprint that fits it. -/
theorem body_calls (h : Host) {request : Request} (fits : request.Fits f) : (body h request).Calls (Op.within f) := by
  have moved : f.Moving := fun o enters => fits.messages o fun _ => enters
  have sent : request.sending = true → f.Sending := fun sends o => fits.messages o fun quiet => by
    rw [sends] at quiet
    cases quiet
  have noted : request.noting = true → f.Recording := fun notes event other => by
    refine fits.records event (fun quiet => ?_) fun _ => other
    rw [notes] at quiet
    cases quiet
  cases hw : request.workflow with
  | true =>
    have sends : request.sending = true := by cases request <;> first | rfl | exact hw
    have notes : f.Recording := noted (by cases request <;> first | rfl | exact hw)
    refine workflowBody_in (closed_calls fun _ within => within)
      (Op.within_of_advances (fits.runs hw) fun event canvas => ?_) h ?_ ?_ hw fun _ _ => fits.runs hw
    · refine fits.records event (fun _ => canvas) fun other => ?_
      rw [hw] at other
      cases other
    · exact fun _ _ _ _ _ => dispatchWorkflowTask_calls fits.events (sent sends) h _ _ _ _ _
        (fun t _ new => fits.dispatched hw t new) notes
    · exact fun _ _ _ => dispatchWorkflowWebhook_calls h _ _ _ (fun d => fits.posts hw _ _ d) notes.created
  | false =>
    cases request with
    | startExecution | advanceExecution | cancelExecution | reconcileActive => cases hw
    | query query => exact (queryBody_calls h query).bind fun _ => trivial
    | edit edit => exact editBody_calls (fits.workflows _ rfl) h edit
    | endpoint edit => exact endpointBody_calls (fits.endpoints _ rfl) h edit
    | workerHeartbeat worker => exact (workerHeartbeat_calls worker).bind fun _ => trivial
    | createTask input =>
      exact (createTask_calls fits.events (sent rfl) h input (fun _ _ _ => fits.requested _ rfl _ _) (noted rfl)).bind fun _ => trivial
    | retryTask orgID id => exact (retryTask_calls (sent rfl) _ _).bind fun _ => trivial
    | cancelTask orgID id => exact (cancelTask_calls fits.events moved h _ _ (noted rfl)).bind fun _ => trivial
    | softDeleteTask orgID id => exact (softDeleteTask_calls moved _ _).bind fun _ => trivial
    | dispatch orgID queue workerID =>
      exact (dispatch_calls fits.events moved (fits.results _ _ _ rfl) (noted rfl) h _ _ _).bind fun _ => trivial
    | heartbeat orgID taskID workerID timeout => exact (heartbeatTick_calls _ _ _ _).bind fun _ => trivial
    | reclaim orgID queue => exact (reclaimTick_calls (sent rfl) _ _).bind fun _ => trivial
    | promotion orgID queue => exact (promotionTick_calls moved _ _).bind fun _ => trivial
    | reconciliation orgID queue => exact (reconciliationTick_calls (sent rfl) _ _).bind fun _ => trivial
    | processDue => exact (processDue_calls (fits.deliveries rfl) (noted rfl) (fits.sends rfl) h).bind fun _ => trivial
    | retryDelivery orgID id => exact (retryDelivery_calls _ _).bind fun _ => trivial

end Windylane
