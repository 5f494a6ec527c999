import Windylane.Theorems.Alone
import Windylane.Theorems.Links

/-! Recovering a claim when the work of the node is there already. -/

namespace Windylane

open Conc Script Prog

/-- The request by which the task of a node is created. -/
def nodeTaskRequest (x : WorkflowExecution) (nodeID : String) (config : WorkflowTaskConfig) : CreateTaskInput :=
  let payload := if config.payload.isEmpty then x.input else config.payload
  let payload := if payload.isEmpty then .json (.obj []) else payload
  let timeout := seconds config.timeoutSeconds
  { orgID := x.orgID
    idempotencyKey := workflowTaskKey x.id nodeID
    queue := config.queue
    payload := payload
    priority := config.priority
    maxRetries := config.maxRetries
    timeout := if timeout = 0 then seconds 60 else timeout
    visibilityTimeout := seconds 30
    scheduledAt := none
    backoffStrategy := "exponential"
    traceID := x.id.text }

/-- The task that was created for the node `m` of the execution. -/
structure OwnTask (h : Host) (w : World) (x : WorkflowExecution) (m : WorkflowNode) (t : Task) : Prop where
  stored : t ∈ w.tasks
  orgID : t.orgID = x.orgID
  key : t.idempotencyKey = workflowTaskKey x.id m.id
  request : ∃ config payload, parseWorkflowTaskConfig m.config = .ok config ∧ t.queue = config.queue ∧
    requestFingerprint h (nodeTaskRequest x m.id config) = some (t.requestFingerprint, payload)

/-- The delivery that was created for the node `m` of the execution. -/
structure OwnDelivery (h : Host) (w : World) (x : WorkflowExecution) (m : WorkflowNode) (v : WebhookDelivery) : Prop where
  stored : v ∈ w.hooks.deliveries
  orgID : v.orgID = x.orgID
  id : v.id = nodeDeliveryID h x.id m.id

/-- The endpoint of the webhook node is there and active. -/
def EndpointActive (h : Host) (w : World) (orgID : UUID) (m : WorkflowNode) : Prop :=
  ∃ config endpointID endpoint, parseWorkflowWebhookConfig m.config = .ok config ∧
    h.uuidParse config.endpointID = some endpointID ∧
    Webhooks.getWebhookEndpoint orgID endpointID w.hooks = .ok endpoint ∧ endpoint.isActive = true

/-- The row is linked, and nothing else happened. -/
structure Adopted (x : WorkflowExecution) (n : WorkflowNodeExecution) (task delivery : Option UUID) (w : World)
    (r : Except Err (Bool × WorkflowExecution)) (w' : World) : Prop where
  answer : r = .ok (true, x)
  only : OnlyRow n w w'
  row : ∃ now, { n with
    input := x.input
    status := .queued
    queueTaskID := task
    webhookDeliveryID := delivery
    updatedAt := now } ∈ w'.canvas.nodes

section Dispatch
variable {R : State → Prop} {pid : Nat} {c : Config machine} {w : World} {h : Host} {x : WorkflowExecution} {m : WorkflowNode}

/-- The task is found again. -/
theorem dispatchWorkflowTask_alone {t : Task} (own : OwnTask h w x m t)
    (found : ∀ queue, t.queue = queue → Tasks.findByIdempotencyKey x.orgID queue (workflowTaskKey x.id m.id) w.tasks = .ok t)
    (hc : c.world = w) :
    RunsAlone R pid (fun r c' => r = .ok ⟨some t, true, none⟩ ∧ c'.world = w)
      (dispatchWorkflowTask h x.orgID x.id m.id m.config x.input) c := by
  obtain ⟨config, payload, parsed, queue, fingerprint⟩ := own.request
  have found := found config.queue queue
  unfold dispatchWorkflowTask
  simp only [parsed]
  have request : RunsAlone R pid (fun r c' => r = .ok ⟨some t, true, none⟩ ∧ c'.world = w)
      (createTask h (nodeTaskRequest x m.id config)) c := by
    unfold createTask
    rw [fingerprint]
    refine alone_tryTask hc fun env c1 hc1 => ?_
    simp only [TaskOp.run] at hc1 ⊢
    have answer : Tasks.findByIdempotencyKey (nodeTaskRequest x m.id config).orgID (nodeTaskRequest x m.id config).queue
      (nodeTaskRequest x m.id config).idempotencyKey w.tasks = .ok t := found
    rw [answer]
    refine solo_ret ⟨?_, hc1⟩
    simp [reuseTask]
  exact request

/-- The delivery is found again, when its endpoint is active. -/
theorem dispatchWorkflowWebhook_alone {v : WebhookDelivery} (active : EndpointActive h w x.orgID m)
    (found : Webhooks.getWebhookDelivery x.orgID (nodeDeliveryID h x.id m.id) w.hooks = .ok v) (hc : c.world = w) :
    RunsAlone R pid (fun r c' => r = .ok (.ok v) ∧ c'.world = w) (dispatchWorkflowWebhook h x m x.input) c := by
  obtain ⟨config, endpointID, endpoint, parsed, uuid, there, active⟩ := active
  unfold dispatchWorkflowWebhook
  simp only [parsed, uuid]
  refine alone_tryHook hc fun env c1 hc1 => ?_
  simp only [HookOp.run] at hc1 ⊢
  rw [there]
  simp only [active]
  refine alone_tryHook hc1 fun env c2 hc2 => ?_
  simp only [HookOp.run] at hc2 ⊢
  unfold nodeDeliveryID at found
  rw [found]
  exact solo_ret ⟨rfl, hc2⟩

/-- The claimed row is stored as it was executed. -/
theorem settle_alone {n node : WorkflowNodeExecution} (running : n.status = .running) (same : SameNode n node)
    (hn : n ∈ w.canvas.nodes) (hc : c.world = w) :
    RunsAlone R pid (fun r c' => r = .ok x ∧ OnlyRow n w c'.world ∧ node ∈ c'.world.canvas.nodes)
      (updateNode node .running >>= fun _ => pure x) c := by
  refine Solo.bind (updateNode_alone node .running hc) ?_ ?_
  · rintro updated c1 ⟨-, hc1⟩
    refine solo_ret ⟨rfl, ?_, ?_⟩
    · rw [hc1]
      exact onlyRow_update same _ _
    · rw [hc1]
      exact running ▸ stored_update same hn
  · rintro e c1 ⟨heq, -⟩
    cases heq

theorem executeClaimedNode_task {n : WorkflowNodeExecution} {t : Task} (type : m.type = .task) (running : n.status = .running)
    (hn : n ∈ w.canvas.nodes) (webhook : n.webhookDeliveryID = none) (own : OwnTask h w x m t)
    (found : ∀ queue, t.queue = queue → Tasks.findByIdempotencyKey x.orgID queue (workflowTaskKey x.id m.id) w.tasks = .ok t)
    (hc : c.world = w) :
    RunsAlone R pid (fun r c' => Adopted x n (some t.id) none w (r.map fun y => (true, y)) c'.world) (executeClaimedNode h x m n) c := by
  unfold executeClaimedNode
  refine alone_sys hc fun now c1 hc1 => ?_
  simp only [type]
  refine Solo.bind (dispatchWorkflowTask_alone own found hc1) ?_ ?_
  · rintro result c2 ⟨heq, hc2⟩
    cases heq
    have same : SameNode n { n with input := x.input, status := .queued, queueTaskID := some t.id, updatedAt := now } :=
      ⟨rfl, rfl, rfl, rfl, rfl, rfl⟩
    refine (settle_alone running same hn hc2).imp ?_
    rintro r c3 - ⟨rfl, only, stored⟩
    rw [webhook] at stored
    exact ⟨rfl, only, now, stored⟩
  · rintro e c2 ⟨heq, -⟩
    cases heq

theorem executeClaimedNode_webhook {n : WorkflowNodeExecution} {v : WebhookDelivery} (type : m.type = .webhook)
    (running : n.status = .running) (hn : n ∈ w.canvas.nodes) (task : n.queueTaskID = none)
    (active : EndpointActive h w x.orgID m)
    (found : Webhooks.getWebhookDelivery x.orgID (nodeDeliveryID h x.id m.id) w.hooks = .ok v) (hc : c.world = w) :
    RunsAlone R pid (fun r c' => Adopted x n none (some v.id) w (r.map fun y => (true, y)) c'.world) (executeClaimedNode h x m n) c := by
  unfold executeClaimedNode
  refine alone_sys hc fun now c1 hc1 => ?_
  simp only [type]
  refine Solo.bind (dispatchWorkflowWebhook_alone active found hc1) ?_ ?_
  · rintro result c2 ⟨heq, hc2⟩
    cases heq
    have same : SameNode n { n with input := x.input, status := .queued, webhookDeliveryID := some v.id, updatedAt := now } :=
      ⟨rfl, rfl, rfl, rfl, rfl, rfl⟩
    refine (settle_alone running same hn hc2).imp ?_
    rintro r c3 - ⟨rfl, only, stored⟩
    rw [task] at stored
    exact ⟨rfl, only, now, stored⟩
  · rintro e c2 ⟨heq, -⟩
    cases heq

end Dispatch

/-- The only row that is chosen is found. -/
theorem find?_of_few {α : Type} {p : α → Bool} {l : List α} {a : α} (few : (l.filter p).length ≤ 1) (ha : a ∈ l)
    (chosen : p a = true) : l.find? p = some a := by
  rw [← List.head?_filter, eq_singleton_of_mem few (List.mem_filter.2 ⟨ha, chosen⟩)]
  rfl

section Runs
variable {h : Host} {w : World} {s : State} {x : WorkflowExecution} {n : WorkflowNodeExecution}
  {d : WorkflowDefinition} {m : WorkflowNode}

/-- The row of the claim is read as stale, and executed again. -/
theorem reconcileNode_recovers {world : World} {Φ : Except Err (Bool × WorkflowExecution) → World → Prop}
    (running : n.status = .running) (task : n.queueTaskID = none) (webhook : n.webhookDeliveryID = none)
    (delay : n.nodeType ≠ .delay) (found : d.node? n.nodeID = some m) (env : Nat → Env) (calm : ∀ i, (env i).fault = none)
    (stale : workflowNodeDispatchRecoveryAfter ≤ (env 0).now - n.updatedAt)
    (executes : ∀ c, c.world = world → RunsAlone (fun _ => True) 0 (fun r c => Φ (r.map fun y => (true, y)) c.world)
      (executeClaimedNode h x m n) c) :
    Φ (Prog.alone (M := machine) env (reconcileNode h d x n) world).1
      (Prog.alone (M := machine) env (reconcileNode h d x n) world).2 := by
  have fresh : ¬ (env 0).now - n.updatedAt < workflowNodeDispatchRecoveryAfter := Int.not_lt.2 stale
  unfold reconcileNode
  rw [alone_sys_eq]
  simp only [task, webhook, if_neg delay, if_pos running, SysOp.run, if_neg fresh, found]
  refine alone_anywhere (alone_sys rfl fun _ c1 hc1 => Solo.bind (executes c1 hc1) ?_ ?_) _ fun i => calm (i + 1)
  · exact fun y c2 done => solo_ret done
  · exact fun e c2 done => done

end Runs
/-! ### A webhook whose claim is left behind -/

def hookHost : Host := { sampleHost with uuidParse := fun _ => some ⟨5⟩ }

def hookNode : WorkflowNode := ⟨"notify", .webhook, "", some [("endpoint_id", .str "hooks")]⟩

def hookDefinition : WorkflowDefinition where
  nodes := some [⟨"start", .trigger, "", some []⟩, hookNode]
  edges := some [⟨"e1", "start", "notify", .empty⟩]

def hookWorld : World :=
  sampleWorld [{ sampleWorkflow with definition := hookDefinition }] [{ sampleVersion with definition := hookDefinition }]

/-- The process stops between the delivery and the link. -/
def hookRun : List (Action machine Request) :=
  [.spawn (.startExecution (sampleStart (.json (.obj []))))] ++ steps 0 0 (idsFrom 100 33) ++ [.crash 0]

end Windylane
