import Windylane.Lib.History
import Windylane.Theorems.Idempotency
import Windylane.Theorems.Requests

/-! Where the rows come from that the workflow service stores. A process stores a node that it claimed, once, or what
    it observed of a row that it read; it fails an execution for a node that it stored as failed or read as failed. All
    of it is in the calls that the process made before. -/

namespace Windylane

open Conc Script Prog

/-! ### Reading the past -/

/-- The node rows that a call answered. -/
def readRows : machine.Exchange → List WorkflowNodeExecution
  | ⟨.canvas (.getWorkflowNodeExecutions _ _), .ok rows⟩ => rows
  | ⟨.canvas (.claimWorkflowNode _ _ _ _), .ok (some row)⟩ => [row]
  | _ => []

def Saw (past : List machine.Exchange) (row : WorkflowNodeExecution) : Prop := ∃ c ∈ past, row ∈ readRows c

/-- The call takes the claim of a node: the claim is won, or it is recovered. -/
def acquires (executionID : UUID) (nodeID : String) : machine.Exchange → Bool
  | ⟨.canvas (.claimWorkflowNode _ execution node _), .ok (some _)⟩ => execution = executionID && node = nodeID
  | ⟨.sys (.recovery execution node), _⟩ => execution = executionID && node = nodeID
  | _ => false

/-- The call stores a row of the node. -/
def Op.storesNode (executionID : UUID) (nodeID : String) : Op → Bool
  | .canvas (.updateWorkflowNodeExecution node _) => node.workflowExecutionID = executionID && node.nodeID = nodeID
  | _ => false

/-- A claim of the node was taken, and no row of it was stored since. -/
def holding (executionID : UUID) (nodeID : String) (past : List machine.Exchange) : Bool :=
  past.foldl (fun held c => acquires executionID nodeID c || held && !c.1.storesNode executionID nodeID) false

/-- The task with the key of the node, as it was created or found. -/
def FoundTask (orgID executionID : UUID) (nodeID queue : String) (id : UUID) : machine.Exchange → Prop
  | ⟨.task (.create t), .ok _⟩ =>
    t.id = id ∧ t.orgID = orgID ∧ t.queue = queue ∧ t.idempotencyKey = workflowTaskKey executionID nodeID
  | ⟨.task (.findByIdempotencyKey org q key), .ok t⟩ =>
    t.id = id ∧ org = orgID ∧ q = queue ∧ key = workflowTaskKey executionID nodeID
  | _ => False

/-- The delivery with the id, as it was created or found. -/
def FoundDelivery (orgID id : UUID) : machine.Exchange → Prop
  | ⟨.hook (.createWebhookDelivery d), .ok _⟩ => d.id = id ∧ d.orgID = orgID
  | ⟨.hook (.getWebhookDelivery org delivery), .ok _⟩ => delivery = id ∧ org = orgID
  | _ => False

/-- The id of the delivery of a node. -/
def nodeDeliveryID (h : Host) (executionID : UUID) (nodeID : String) : UUID := h.newSHA1 (executionID.text ++ ":" ++ nodeID)

/-- `x` is an execution that was read, and `d` the definition of its version. -/
def Plans (past : List machine.Exchange) (x : WorkflowExecution) (d : WorkflowDefinition) : Prop :=
  ∃ orgID workflowID executionID y v, ⟨.canvas (.getWorkflowExecution orgID workflowID executionID), .ok y⟩ ∈ past ∧
    y.id = executionID ∧ SameExecution y x ∧
    ⟨.canvas (.getWorkflowExecutionVersion orgID workflowID y.workflowVersionID), .ok v⟩ ∈ past ∧ v.definition = d

/-! ### Copies of an execution -/

/-- The execution as it is marked running, touched, succeeded and failed. -/
abbrev startedAs (x : WorkflowExecution) (now : Time) : WorkflowExecution :=
  { x with status := .running, startedAt := some now, updatedAt := now }

abbrev touchedAs (x : WorkflowExecution) (now : Time) : WorkflowExecution := { x with status := .running, updatedAt := now }

abbrev succeededAs (x : WorkflowExecution) (output : RawMessage) (now : Time) : WorkflowExecution :=
  { x with status := .succeeded, output := output, completedAt := some now, updatedAt := now }

abbrev failedAs (x : WorkflowExecution) (code message : String) (now : Time) : WorkflowExecution :=
  { x with status := .failed, errorCode := code, errorMessage := message, completedAt := some now, updatedAt := now }

def ReadExecution (past : List machine.Exchange) (y : WorkflowExecution) : Prop :=
  ∃ orgID workflowID executionID, ⟨.canvas (.getWorkflowExecution orgID workflowID executionID), .ok y⟩ ∈ past

/-- What a process has of an execution that runs: what it read, or what it made of that and tried to store. -/
inductive Copy (past : List machine.Exchange) : WorkflowExecution → Prop
  | read {y : WorkflowExecution} (read : ReadExecution past y) (running : y.status = .running) : Copy past y
  | started {y : WorkflowExecution} {now : Time} {updated : Bool} (read : ReadExecution past y) (pending : y.status = .pending)
      (stored : ⟨.canvas (.updateWorkflowExecution (startedAs y now) [.pending]), .ok updated⟩ ∈ past) :
      Copy past (startedAs y now)
  | failed {y : WorkflowExecution} {code message : String} {now : Time} {updated : Bool} (copy : Copy past y)
      (stored : ⟨.canvas (.finalizeWorkflowExecution (failedAs y code message now) [.pending, .running] true), .ok updated⟩ ∈
        past) : Copy past (failedAs y code message now)

/-! ### Where a stored row comes from -/

/-- The clock was read as `now`, after the call `c`. -/
def After (past : List machine.Exchange) (c : machine.Exchange) (now : Time) : Prop :=
  ∃ before rest, past = before ++ ⟨.sys .now, .ok now⟩ :: rest ∧ c ∈ before

/-- The clock was read as `now`, after the row. -/
def Ticked (past : List machine.Exchange) (row : WorkflowNodeExecution) (now : Time) : Prop :=
  ∃ c, row ∈ readRows c ∧ After past c now

/-- The process has the claim of the row that it read. -/
structure Held (past : List machine.Exchange) (base : WorkflowNodeExecution) : Prop where
  saw : Saw past base
  holding : holding base.workflowExecutionID base.nodeID past = true
  running : base.status = .running
  task : base.queueTaskID = none
  webhook : base.webhookDeliveryID = none
  delay : base.nodeType = .delay → base.availableAt = none

/-- What executing the claimed row `base` for the node `m` stores, when it does not fail. -/
inductive Executed (h : Host) (past : List machine.Exchange) (x : WorkflowExecution) (m : WorkflowNode)
    (base : WorkflowNodeExecution) (now : Time) : WorkflowNodeExecution → Prop
  | trigger (type : m.type = .trigger) : Executed h past x m base now
      { base with input := x.input, status := .succeeded, output := x.input, completedAt := some now, updatedAt := now }
  | condition (result : Bool) (type : m.type = .condition) : Executed h past x m base now
      { base with
        input := x.input
        status := .succeeded
        output := .json (.obj [("result", .bool result)])
        completedAt := some now
        updatedAt := now }
  | delay (config : WorkflowDelayConfig) (type : m.type = .delay) (parsed : parseWorkflowDelayConfig m.config = .ok config) :
      Executed h past x m base now
        { base with
          input := x.input
          status := .queued
          availableAt := some (now + seconds config.durationSeconds)
          updatedAt := now }
  | task (id : UUID) (config : WorkflowTaskConfig) (type : m.type = .task)
      (parsed : parseWorkflowTaskConfig m.config = .ok config)
      (found : ∃ c ∈ past, FoundTask x.orgID x.id m.id config.queue id c) : Executed h past x m base now
        { base with input := x.input, status := .queued, queueTaskID := some id, updatedAt := now }
  | webhook (type : m.type = .webhook) (found : ∃ c ∈ past, FoundDelivery x.orgID (nodeDeliveryID h x.id m.id) c) :
      Executed h past x m base now
        { base with
          input := x.input
          status := .queued
          webhookDeliveryID := some (nodeDeliveryID h x.id m.id)
          updatedAt := now }

/-- What a process makes of an open row that it read. -/
inductive Observation (h : Host) (past : List machine.Exchange) (row : WorkflowNodeExecution) (now : Time) :
    WorkflowNodeExecution → Prop
  | task {orgID id : UUID} {task : Task} (link : row.queueTaskID = some id)
      (read : ⟨.task (.getByID orgID id), .ok task⟩ ∈ past) : Observation h past row now (mirrorTask row task now)
  | delivery {orgID id : UUID} {delivery : WebhookDelivery} (unlinked : row.queueTaskID = none)
      (link : row.webhookDeliveryID = some id) (read : ⟨.hook (.getWebhookDelivery orgID id), .ok delivery⟩ ∈ past) :
      Observation h past row now (mirrorDelivery row delivery now)
  | delay {availableAt : Time} (task : row.queueTaskID = none) (webhook : row.webhookDeliveryID = none)
      (type : row.nodeType = .delay) (due : row.availableAt = some availableAt) :
      Observation h past row now (resumeDelay h row availableAt now)
  | same (task : row.queueTaskID = none) (webhook : row.webhookDeliveryID = none) (queued : row.status = .queued)
      (delay : row.nodeType = .delay → row.availableAt = none) : Observation h past row now row

/-- The node of the definition `d` of the execution `x` that the row is of. -/
structure Assigned (past : List machine.Exchange) (x : WorkflowExecution) (d : WorkflowDefinition) (m : WorkflowNode)
    (base : WorkflowNodeExecution) : Prop where
  copy : Copy past x
  plan : Plans past x d
  member : m ∈ d.nodeList
  nodeID : m.id = base.nodeID
  executionID : x.id = base.workflowExecutionID
  orgID : x.orgID = base.orgID

/-- What is stored over a node row, and for which status of it. -/
inductive NodeWrite (h : Host) (past : List machine.Exchange) :
    WorkflowNodeExecution → WorkflowNodeExecutionStatus → Prop
  | skip {row : WorkflowNodeExecution} {now : Time} (held : Held past row) (ticked : Ticked past row now) :
      NodeWrite h past { row with status := .skipped, completedAt := some now, updatedAt := now } .running
  | execute {x : WorkflowExecution} {d : WorkflowDefinition} {m : WorkflowNode} {base node : WorkflowNodeExecution}
      {now : Time} (held : Held past base) (ticked : Ticked past base now) (assigned : Assigned past x d m base)
      (executed : Executed h past x m base now node) : NodeWrite h past node .running
  | fail {x : WorkflowExecution} {base : WorkflowNodeExecution} {code message : String} {now : Time} (held : Held past base)
      (ticked : Ticked past base now) (copy : Copy past x) :
      NodeWrite h past
        { base with
          input := x.input
          status := .failed
          errorCode := code
          errorMessage := message
          completedAt := some now
          updatedAt := now } .running
  | observe {row node : WorkflowNodeExecution} {now : Time} (saw : Saw past row)
      (opened : row.status = .queued ∨ row.status = .running) (ticked : Ticked past row now)
      (observed : Observation h past row now node)
      (differs : node.status ≠ row.status ∨ node.attempt ≠ row.attempt ∨ node.completedAt.isSome = true) :
      NodeWrite h past { node with updatedAt := now } row.status

/-- The execution is failed with the error of a node: one that was read as failed, or one that was held and tried to be
    stored as failed. -/
def Blames (past : List machine.Exchange) (executionID : UUID) (code message : String) : Prop :=
  (∃ row, Saw past row ∧ row.workflowExecutionID = executionID ∧ row.status = .failed ∧ row.errorCode = code ∧
    row.errorMessage = message) ∨
  ∃ node updated before rest, past = before ++ ⟨.canvas (.updateWorkflowNodeExecution node .running), .ok updated⟩ :: rest ∧
    (∃ base, Held before base ∧ SameNode base node) ∧ node.workflowExecutionID = executionID ∧ node.status = .failed ∧
    node.errorCode = code ∧ node.errorMessage = message

/-- The node is ready for its claim by rows that were read before the clock. -/
def ClaimReady (past : List machine.Exchange) (orgID executionID : UUID) (nodeID : String) (now : Time) : Prop :=
  ∃ x d m nodes ready, Plans past x d ∧ x.orgID = orgID ∧ x.id = executionID ∧ m ∈ d.nodeList ∧ m.id = nodeID ∧
    workflowNodeReadiness d nodes m = .ok ready ∧ ready ≠ .waiting ∧
    After past ⟨.canvas (.getWorkflowNodeExecutions orgID executionID), .ok nodes⟩ now

/-- Rows as they are inserted. -/
abbrev NewNode (n : WorkflowNodeExecution) : Prop :=
  n.status = .pending ∧ n.output = .empty ∧ n.errorCode = "" ∧ n.startedAt = none ∧ n.completedAt = none ∧ Unlinked n

structure NewExecution (x : WorkflowExecution) (nodes : List WorkflowNodeExecution) : Prop where
  status : x.status = .pending
  output : x.output = .empty
  errorCode : x.errorCode = ""
  startedAt : x.startedAt = none
  completedAt : x.completedAt = none
  nodes : ∀ n ∈ nodes, NewNode n

/-- What the calls of the workflow service rest on. -/
def Rightful (h : Host) (past : List machine.Exchange) : Op → Prop
  | .canvas (.updateWorkflowNodeExecution node expected) => NodeWrite h past node expected
  | .canvas (.updateWorkflowExecution x expected) => ∃ y now,
    (ReadExecution past y ∧ y.status = .pending ∧ x = startedAs y now ∧ expected = [.pending]) ∨
      Copy past y ∧ x = touchedAs y now ∧ expected = [.running]
  | .canvas (.finalizeWorkflowExecution x expected closes) => expected = [.pending, .running] ∧ ∃ y now, Copy past y ∧
    ((∃ output, x = succeededAs y output now ∧ closes = false) ∨
      ∃ code message, x = failedAs y code message now ∧ closes = true ∧ Blames past y.id code message)
  | .canvas (.claimWorkflowNode orgID executionID nodeID now) => ClaimReady past orgID executionID nodeID now
  | .canvas (.insertWorkflowExecution x nodes) => NewExecution x nodes
  | _ => True

/-- What is known of the answers. -/
def WorkflowAnswer : (o : Op) → machine.Answer o → Prop
  | .sys _, r => ∃ a, r = .ok a
  | .canvas (.getWorkflowExecution _ _ executionID), .ok x => x.id = executionID
  | .canvas (.getWorkflowNodeExecutions orgID executionID), .ok rows =>
    ∀ n ∈ rows, n.orgID = orgID ∧ n.workflowExecutionID = executionID
  | .canvas (.claimWorkflowNode orgID executionID nodeID _), .ok (some row) =>
    row.orgID = orgID ∧ row.workflowExecutionID = executionID ∧ row.nodeID = nodeID ∧ row.status = .running ∧ Unlinked row
  | .hook (.getWebhookDelivery _ id), .ok delivery => delivery.id = id
  | _, _ => True

/-! ### A longer past -/

section Past
variable {past after : List machine.Exchange} {executionID : UUID} {nodeID : String}

theorem Saw.mono {row : WorkflowNodeExecution} (h : Saw past row) (grown : past <+: after) : Saw after row := by
  obtain ⟨c, hc, hr⟩ := h
  exact ⟨c, grown.subset hc, hr⟩

theorem ReadExecution.mono {x : WorkflowExecution} (h : ReadExecution past x) (grown : past <+: after) :
    ReadExecution after x := by
  obtain ⟨orgID, workflowID, executionID, read⟩ := h
  exact ⟨orgID, workflowID, executionID, grown.subset read⟩

theorem Copy.mono {x : WorkflowExecution} (h : Copy past x) (grown : past <+: after) : Copy after x := by
  induction h with
  | read read running => exact .read (read.mono grown) running
  | started read pending stored => exact .started (read.mono grown) pending (grown.subset stored)
  | failed _ stored ih => exact .failed ih (grown.subset stored)

theorem After.mono {c : machine.Exchange} {now : Time} (h : After past c now) (grown : past <+: after) : After after c now := by
  obtain ⟨before, rest, rfl, hc⟩ := h
  obtain ⟨more, rfl⟩ := grown
  exact ⟨before, rest ++ more, by simp, hc⟩

theorem Ticked.mono {row : WorkflowNodeExecution} {now : Time} (h : Ticked past row now) (grown : past <+: after) :
    Ticked after row now := by
  obtain ⟨c, hc, read⟩ := h
  exact ⟨c, hc, read.mono grown⟩

/-- The clock is read now. -/
theorem Saw.ticked {row : WorkflowNodeExecution} (h : Saw past row) (now : Time) :
    Ticked (past ++ [⟨.sys .now, .ok now⟩]) row now := by
  obtain ⟨c, hc, hr⟩ := h
  exact ⟨c, hr, past, [], rfl, hc⟩

theorem Plans.mono {x : WorkflowExecution} {d : WorkflowDefinition} (h : Plans past x d) (grown : past <+: after) :
    Plans after x d := by
  obtain ⟨orgID, workflowID, executionID, y, v, read, hid, same, version, hd⟩ := h
  exact ⟨orgID, workflowID, executionID, y, v, grown.subset read, hid, same, grown.subset version, hd⟩

theorem Plans.same {x y : WorkflowExecution} {d : WorkflowDefinition} (h : Plans past x d) (same : SameExecution x y) :
    Plans past y d := by
  obtain ⟨orgID, workflowID, executionID, z, v, read, hid, hs, version, hd⟩ := h
  exact ⟨orgID, workflowID, executionID, z, v, read, hid, hs.trans same, version, hd⟩

theorem holding_concat (c : machine.Exchange) : holding executionID nodeID (past ++ [c]) =
    (acquires executionID nodeID c || holding executionID nodeID past && !c.1.storesNode executionID nodeID) := by
  simp [holding]

/-- A claim is held until a row of the node is stored. -/
theorem holding_append {more : List machine.Exchange} (held : holding executionID nodeID past = true)
    (others : ∀ c ∈ more, c.1.storesNode executionID nodeID = false) : holding executionID nodeID (past ++ more) = true := by
  induction more generalizing past with
  | nil => simpa using held
  | cons c more ih =>
    have next : holding executionID nodeID (past ++ [c]) = true := by
      rw [holding_concat, held, others c List.mem_cons_self]
      simp
    simpa using ih next fun c hc => others c (List.mem_cons_of_mem _ hc)

/-- Everything but writing executions. -/
abbrev Footprint.offRuns : Footprint where
  runs := False
  workflows := True
  endpoints := True
  results := True
  sends := True
  deliveries := True
  create := fun _ => True
  deliver := fun _ => True

theorem storesNode_of_within {o : Op} (within : o.within Footprint.offRuns) : o.storesNode executionID nodeID = false := by
  unfold Op.storesNode
  split
  · exact within.elim
  · rfl

theorem rightful_of_within {h : Host} {o : Op} (within : o.within Footprint.offRuns) : Rightful h past o := by
  unfold Rightful
  split
  all_goals first | exact within.elim | trivial

end Past

/-! ### Dispatching -/

/-- The calls of the program rest on its past. -/
abbrev Rightly {α : Type} (h : Host) (φ : List machine.Exchange → α → Prop) (past : List machine.Exchange)
    (p : Script α) : Prop :=
  Walks WorkflowAnswer (Rightful h) φ past p

section Programs
-- the conditions on texts are not decided here
seal trimSpace

variable {h : Host} {past : List machine.Exchange} {α : Type} {φ : List machine.Exchange → α → Prop}

theorem workflowAnswer_sys (o : Op) (r : machine.Answer o) (answer : WorkflowAnswer o r) : SysAnswers o r := by
  cases o with
  | sys o => exact answer
  | _ => trivial

theorem rightly_sys {o : SysOp} {f : o.Resp → Script α} (hf : ∀ a, Rightly h φ (past ++ [⟨.sys o, .ok a⟩]) (f a)) :
    Rightly h φ past (Script.sys o >>= f) := walks_perform trivial fun a _ => hf a

/-- A program off the runs adds no store of a node to its past. -/
theorem rightly_off {p : Script α} (within : p.Calls (Op.within .offRuns)) : Rightly h (fun _ _ => True) past p := by
  have along : p.Along WorkflowAnswer (Rightful h) (fun _ _ => True) past :=
    within.along (fun _ _ => rightful_of_within) fun _ _ => trivial
  refine (along.framed within).imp ?_
  rintro _ _ ⟨-, more, rfl, -⟩
  exact ⟨List.prefix_append _ _, fun _ _ => trivial⟩

/-- The answer names a task with the key. -/
def FoundIn (orgID executionID : UUID) (nodeID queue : String) (after : List machine.Exchange) (result : TaskResult) : Prop :=
  ∀ task, result.task = some task → ∃ c ∈ after, FoundTask orgID executionID nodeID queue task.id c

theorem reuseTask_found {orgID executionID : UUID} {nodeID queue : String} {existing : Task} {fingerprint : String}
    (found : ⟨.task (.findByIdempotencyKey orgID queue (workflowTaskKey executionID nodeID)), .ok existing⟩ ∈ past) :
    FoundIn orgID executionID nodeID queue past (reuseTask existing fingerprint) := by
  unfold reuseTask
  split
  · exact fun _ he => by cases he
  · intro task he
    cases he
    exact ⟨_, found, rfl, rfl, rfl, rfl⟩

theorem dispatchCreated_walk {orgID executionID : UUID} {nodeID queue : String} {task : Task}
    (found : ∃ c ∈ past, FoundTask orgID executionID nodeID queue task.id c) :
    Rightly h (FoundIn orgID executionID nodeID queue) past (dispatchCreated h task) := by
  have ends : (dispatchCreated h task).Along WorkflowAnswer (Rightful h) (fun _ r => ∃ err, r = .ok ⟨some task, false, err⟩) past :=
    (dispatchCreated_ends h task).along workflowAnswer_sys (dispatchCreated_calls (fun _ _ => trivial) (fun _ => trivial) h task)
      fun _ _ => rightful_of_within
  refine (ends.framed (dispatchCreated_calls (f := .offRuns) (fun _ _ => trivial) (fun _ => trivial) h task)).imp ?_
  rintro _ _ ⟨⟨err, rfl⟩, more, rfl, -⟩
  refine ⟨List.prefix_append _ _, fun result hr t ht => ?_⟩
  cases hr
  cases ht
  obtain ⟨c, hc, hf⟩ := found
  exact ⟨c, List.mem_append_left _ hc, hf⟩

theorem createTask_walk {orgID executionID : UUID} {nodeID queue : String} {input : CreateTaskInput}
    (org : input.orgID = orgID) (hq : input.queue = queue) (key : input.idempotencyKey = workflowTaskKey executionID nodeID) :
    Rightly h (FoundIn orgID executionID nodeID queue) past (createTask h input) := by
  subst org hq
  have unanswered : ∀ {after : List machine.Exchange} (err : Option Err),
      FoundIn input.orgID executionID nodeID input.queue after ⟨none, false, err⟩ := fun _ _ he => by cases he
  unfold createTask
  split
  · exact walks_ret (unanswered _)
  · rename_i fingerprint payload _
    rw [key]
    refine walks_attempt trivial fun r _ => ?_
    split
    · exact walks_ret (reuseTask_found (by simp))
    · refine rightly_sys fun now => rightly_sys fun id => walks_attempt trivial fun r _ => ?_
      split
      · refine dispatchCreated_walk ⟨_, List.mem_append_right _ (List.mem_singleton_self _), ?_⟩
        unfold requestedTask
        split <;> exact ⟨rfl, rfl, rfl, key⟩
      · refine walks_attempt trivial fun r _ => ?_
        split
        · exact walks_ret (reuseTask_found (by simp))
        · exact walks_ret (unanswered _)
      · exact walks_ret (unanswered _)
    · exact walks_ret (unanswered _)

theorem dispatchWorkflowTask_walk (orgID executionID : UUID) (nodeID : String) (config : Option (List (String × Json)))
    (input : RawMessage) :
    Rightly h (fun after result => ∀ task, result.task = some task → ∃ parsed, parseWorkflowTaskConfig config = .ok parsed ∧
      ∃ c ∈ after, FoundTask orgID executionID nodeID parsed.queue task.id c) past
      (dispatchWorkflowTask h orgID executionID nodeID config input) := by
  unfold dispatchWorkflowTask
  split
  · exact walks_ret fun _ he => by cases he
  · rename_i parsed accepted
    exact (createTask_walk rfl rfl rfl).imp fun after result _ found task he => ⟨parsed, accepted, found task he⟩

theorem dispatchWorkflowWebhook_walk (x : WorkflowExecution) (m : WorkflowNode) (input : RawMessage) :
    Rightly h (fun after result => ∀ delivery, result = .ok delivery → delivery.id = nodeDeliveryID h x.id m.id ∧
      ∃ c ∈ after, FoundDelivery x.orgID (nodeDeliveryID h x.id m.id) c) past (dispatchWorkflowWebhook h x m input) := by
  have refused : ∀ {after : List machine.Exchange} {e : Err} (delivery : WebhookDelivery), (.error e : DeliveryResult) = .ok delivery →
      delivery.id = nodeDeliveryID h x.id m.id ∧ ∃ c ∈ after, FoundDelivery x.orgID (nodeDeliveryID h x.id m.id) c :=
    fun _ he => by cases he
  unfold dispatchWorkflowWebhook
  split
  · exact walks_ret refused
  split
  · exact walks_ret refused
  refine walks_attempt trivial fun r _ => ?_
  cases r with
  | error e => exact walks_ret refused
  | ok endpoint =>
    simp only
    split
    · exact walks_ret refused
    -- the delivery with the id is found, created, or found because another call created it
    refine walks_attempt trivial fun r answer => ?_
    cases r with
    | ok existing =>
      refine walks_ret fun delivery he => ?_
      cases he
      exact ⟨answer, _, List.mem_append_right _ (List.mem_singleton_self _), rfl, rfl⟩
    | error e =>
      refine rightly_sys fun now => rightly_sys fun eventID => walks_attempt trivial fun r _ => ?_
      cases r with
      | ok _ =>
        refine rightly_sys fun _ => walks_ret fun delivery he => ?_
        cases he
        exact ⟨rfl, _, List.mem_append_left _ (List.mem_append_right _ (List.mem_singleton_self _)), rfl, rfl⟩
      | error e =>
        refine walks_attempt trivial fun r answer => ?_
        cases r with
        | error e' => exact walks_ret refused
        | ok existing =>
          refine walks_ret fun delivery he => ?_
          cases he
          exact ⟨answer, _, List.mem_append_right _ (List.mem_singleton_self _), rfl, rfl⟩

/-! ### Storing -/

section Storing
variable {x : WorkflowExecution} {d : WorkflowDefinition}

theorem Held.framed {base : WorkflowNodeExecution} (held : Held past base) {more : List machine.Exchange}
    (within : ∀ c ∈ more, c.1.within Footprint.offRuns) : Held (past ++ more) base :=
  { held with
    saw := held.saw.mono (List.prefix_append _ _)
    holding := holding_append held.holding fun c hc => storesNode_of_within (within c hc) }

theorem Held.called {base : WorkflowNodeExecution} (held : Held past base) (c : machine.Exchange)
    (within : c.1.within Footprint.offRuns) : Held (past ++ [c]) base :=
  held.framed fun c' hc => by
    rw [List.mem_singleton.1 hc]
    exact within

theorem recordCancelled_off (nodes : List WorkflowNodeExecution) : (recordCancelled nodes).Calls (Op.within .offRuns) := by
  induction nodes with
  | nil => trivial
  | cons node rest ih =>
    unfold recordCancelled
    split
    · exact Calls.bind (by simp [perform, Op.within]) fun _ => ih
    · exact ih

/-- A row is stored, and that it was is in the past. -/
theorem updateNode_walk {node : WorkflowNodeExecution} {expected : WorkflowNodeExecutionStatus}
    (right : NodeWrite h past node expected) :
    Rightly h (fun after updated => past ++ [⟨.canvas (.updateWorkflowNodeExecution node expected), .ok updated⟩] <+: after) past
      (updateNode node expected) := by
  refine walks_perform right fun updated _ => ?_
  cases updated with
  | false => exact walks_ret (List.prefix_refl _)
  | true =>
    simp only [if_true]
    split
    all_goals first
      | exact walks_ret (List.prefix_refl _)
      | exact rightly_sys fun _ => walks_ret (List.prefix_append _ _)

/-- What a process knows of the execution that it advances. -/
structure Steers (past : List machine.Exchange) (x : WorkflowExecution) (d : WorkflowDefinition) : Prop where
  copy : Copy past x
  plan : Plans past x d

theorem Steers.mono (h : Steers past x d) {after : List machine.Exchange} (grown : past <+: after) : Steers after x d :=
  ⟨h.copy.mono grown, h.plan.mono grown⟩

/-- The execution that a step of the loop answers. -/
def Steered (x : WorkflowExecution) (d : WorkflowDefinition) (after : List machine.Exchange) (x' : WorkflowExecution) : Prop :=
  Steers after x' d ∧ SameExecution x x'

theorem failExecution_walk (steers : Steers past x d) {code message : String} (blames : ∀ after, past <+: after → Blames after x.id code message) :
    Rightly h (Steered x d) past (failExecution x code message) := by
  refine rightly_sys fun now => walks_perform ?_ fun updated _ => ?_
  · exact ⟨rfl, x, now, steers.copy.mono (List.prefix_append _ _), Or.inr ⟨code, message, rfl, rfl, blames _ (List.prefix_append _ _)⟩⟩
  have steered : ∀ {after : List machine.Exchange}, past ++ [⟨.sys .now, .ok now⟩] ++
        [⟨.canvas (.finalizeWorkflowExecution (failedAs x code message now) [.pending, .running] true), .ok updated⟩] <+: after →
      Steered x d after (failedAs x code message now) := by
    intro after grown
    have before : past <+: after := ((List.prefix_append _ _).trans (List.prefix_append _ _)).trans grown
    have stored : ⟨.canvas (.finalizeWorkflowExecution (failedAs x code message now) [.pending, .running] true), .ok updated⟩ ∈ after :=
      grown.subset (List.mem_append_right _ (List.mem_singleton_self _))
    have same : SameExecution x (failedAs x code message now) := ⟨rfl, rfl, rfl, rfl, rfl, rfl, rfl, rfl, rfl⟩
    exact ⟨⟨.failed (steers.copy.mono before) stored, (steers.plan.mono before).same same⟩, same⟩
  cases updated with
  | false => exact walks_ret (steered (List.prefix_refl _))
  | true =>
    simp only [if_true]
    refine rightly_sys fun _ => walks_attempt trivial fun answer _ => ?_
    split
    · refine (rightly_off (recordCancelled_off _)).bind fun after _ grown _ => walks_ret (steered ?_)
      exact ((List.prefix_append _ _).trans (List.prefix_append _ _)).trans grown
    · exact walks_ret (steered ((List.prefix_append _ _).trans (List.prefix_append _ _)))

theorem failClaimedNode_walk (steers : Steers past x d) {base : WorkflowNodeExecution} (held : Held past base)
    (execution : x.id = base.workflowExecutionID) (code message : String) :
    Rightly h (Steered x d) past (failClaimedNode x { base with input := x.input } code message) := by
  refine rightly_sys fun now => ?_
  have grown : past <+: past ++ [⟨.sys .now, .ok now⟩] := List.prefix_append _ _
  have held' : Held (past ++ [⟨.sys .now, .ok now⟩]) base := held.called _ trivial
  refine (updateNode_walk (.fail (x := x) held' (held.saw.ticked now) (steers.copy.mono grown))).bind fun after updated _ stored => ?_
  have before : past <+: after := (grown.trans (List.prefix_append _ _)).trans stored
  refine (failExecution_walk (steers.mono before) fun later longer => Or.inr ?_)
  obtain ⟨rest, rfl⟩ := stored.trans longer
  refine ⟨{ base with
      input := x.input
      status := .failed
      errorCode := code
      errorMessage := message
      completedAt := some now
      updatedAt := now }, updated, _, rest, ?_, ⟨base, held', ?_⟩, execution.symm, rfl, rfl, rfl⟩
  · rw [List.append_assoc, List.singleton_append]
  · exact ⟨rfl, rfl, rfl, rfl, rfl, rfl⟩

/-- What was executed is stored, and the execution goes on as it was. -/
theorem settle_walk (steers : Steers past x d) {node : WorkflowNodeExecution} (right : NodeWrite h past node .running) :
    Rightly h (Steered x d) past (do let _ ← updateNode node .running; pure x) := by
  refine (updateNode_walk right).bind fun after _ grown _ => walks_ret ⟨steers.mono grown, .refl x⟩

theorem Assigned.mono {m : WorkflowNode} {base : WorkflowNodeExecution} (h : Assigned past x d m base)
    {after : List machine.Exchange} (grown : past <+: after) : Assigned after x d m base :=
  { h with copy := h.copy.mono grown, plan := h.plan.mono grown }

theorem executeClaimedNode_walk {m : WorkflowNode} {base : WorkflowNodeExecution} (held : Held past base)
    (assigned : Assigned past x d m base) : Rightly h (Steered x d) past (executeClaimedNode h x m base) := by
  unfold executeClaimedNode
  refine rightly_sys fun now => ?_
  have grown : past <+: past ++ [⟨.sys .now, .ok now⟩] := List.prefix_append _ _
  have ticked : Ticked (past ++ [⟨.sys .now, .ok now⟩]) base now := held.saw.ticked now
  have held : Held (past ++ [⟨.sys .now, .ok now⟩]) base := held.called _ trivial
  have assigned := assigned.mono grown
  have steers : Steers (past ++ [⟨.sys .now, .ok now⟩]) x d := ⟨assigned.copy, assigned.plan⟩
  simp only
  cases type : m.type with
  | trigger => exact settle_walk steers (.execute held ticked assigned (.trigger type))
  | condition =>
    simp only
    split
    · exact failClaimedNode_walk steers held assigned.executionID _ _
    split
    · exact failClaimedNode_walk steers held assigned.executionID _ _
    · exact settle_walk steers (.execute held ticked assigned (.condition _ type))
  | delay =>
    simp only
    split
    · exact failClaimedNode_walk steers held assigned.executionID _ _
    · exact settle_walk steers (.execute held ticked assigned (.delay _ type ‹_›))
  | task =>
    simp only
    have calls := dispatchWorkflowTask_calls (f := .offRuns) (fun _ _ => trivial) (fun _ => trivial) h x.orgID x.id m.id
      m.config x.input fun _ _ _ => trivial
    refine ((dispatchWorkflowTask_walk _ _ _ _ _).framed calls).bind ?_
    rintro _ result grown ⟨found, more, rfl, within⟩
    split
    · exact failClaimedNode_walk (steers.mono grown) (held.framed within) assigned.executionID _ _
    · rename_i task dispatched
      obtain ⟨config, parsed, found⟩ := found task dispatched
      exact settle_walk (steers.mono grown) (.execute (held.framed within) (ticked.mono grown) (assigned.mono grown)
        (.task task.id config type parsed found))
  | webhook =>
    simp only
    have calls := dispatchWorkflowWebhook_calls (f := .offRuns) h x m x.input fun _ _ => trivial
    refine ((dispatchWorkflowWebhook_walk _ _ _).framed calls).bind ?_
    rintro _ result grown ⟨found, more, rfl, within⟩
    split
    · exact failClaimedNode_walk (steers.mono grown) (held.framed within) assigned.executionID _ _
    · rename_i delivery
      obtain ⟨id, found⟩ := found delivery rfl
      rw [id]
      exact settle_walk (steers.mono grown) (.execute (held.framed within) (ticked.mono grown) (assigned.mono grown)
        (.webhook type found))
  | other text => exact failClaimedNode_walk steers held assigned.executionID _ _

/-! ### Reconciling -/

/-- The row is one of those that were read for the execution. -/
structure Listed (past : List machine.Exchange) (x : WorkflowExecution) (row : WorkflowNodeExecution) : Prop where
  saw : Saw past row
  orgID : row.orgID = x.orgID
  executionID : row.workflowExecutionID = x.id

theorem Listed.mono {row : WorkflowNodeExecution} (h : Listed past x row) {after : List machine.Exchange}
    (grown : past <+: after) : Listed after x row := { h with saw := h.saw.mono grown }

theorem storeObserved_walk {row node : WorkflowNodeExecution} {now : Time} (saw : Saw past row)
    (opened : row.status = .queued ∨ row.status = .running) (ticked : Ticked past row now)
    (observed : Observation h past row now node) : Rightly h (fun _ _ => True) past (storeObserved row node now) := by
  unfold storeObserved
  split
  · rename_i differs
    exact (updateNode_walk (.observe saw opened ticked observed differs)).imp fun _ _ _ _ => trivial
  · exact walks_ret trivial

theorem reconcileNode_walk (steers : Steers past x d) {row : WorkflowNodeExecution} (listed : Listed past x row)
    (opened : row.status = .queued ∨ row.status = .running) :
    Rightly h (fun after r => Steered x d after r.2) past (reconcileNode h d x row) := by
  unfold reconcileNode
  refine rightly_sys fun now => ?_
  have grown : past <+: past ++ [⟨.sys .now, .ok now⟩] := List.prefix_append _ _
  have ticked : Ticked (past ++ [⟨.sys .now, .ok now⟩]) row now := listed.saw.ticked now
  have listed := listed.mono grown
  have steers := steers.mono grown
  have kept : ∀ {after : List machine.Exchange} {b : Bool}, past ++ [⟨.sys .now, .ok now⟩] <+: after →
      Steered x d after (b, x).2 := fun grown => ⟨steers.mono grown, .refl x⟩
  have stores : ∀ {before : List machine.Exchange} {node : WorkflowNodeExecution}, past ++ [⟨.sys .now, .ok now⟩] <+: before →
      Observation h before row now node → Rightly h (fun after r => Steered x d after r.2) before
        (do let updated ← storeObserved row node now; pure (updated, x)) := by
    intro before node grown observed
    refine (storeObserved_walk (listed.saw.mono grown) opened (ticked.mono grown) observed).bind fun after _ longer _ => ?_
    exact walks_ret (kept (grown.trans longer))
  simp only
  split
  · rename_i id link
    refine walks_attempt trivial fun r _ => ?_
    split
    · exact walks_ret (kept (List.prefix_append _ _))
    · exact walks_fail _
    · exact stores (List.prefix_append _ _) (.task link (List.mem_append_right _ (List.mem_singleton_self _)))
  · rename_i id unlinked link
    refine walks_attempt trivial fun r _ => ?_
    split
    · exact walks_ret (kept (List.prefix_append _ _))
    · exact walks_fail _
    · exact stores (List.prefix_append _ _) (.delivery unlinked link (List.mem_append_right _ (List.mem_singleton_self _)))
  · rename_i task webhook
    split
    · rename_i availableAt due
      split at due
      · rename_i type
        exact stores (List.prefix_refl _) (.delay task webhook type due)
      · cases due
    · rename_i undelayed
      have delay : row.nodeType = .delay → row.availableAt = none := fun type => by rwa [if_pos type] at undelayed
      split
      · rename_i running
        split
        · exact walks_ret (kept (List.prefix_refl _))
        split
        · exact walks_fail _
        · rename_i m found
          obtain ⟨member, id⟩ := node?_eq_some found
          refine rightly_sys fun _ => ?_
          have longer : past ++ [⟨.sys .now, .ok now⟩] <+: past ++ [⟨.sys .now, .ok now⟩] ++
            [⟨.sys (.recovery x.id row.nodeID), .ok ()⟩] := List.prefix_append _ _
          have held : Held (past ++ [⟨.sys .now, .ok now⟩] ++ [⟨.sys (.recovery x.id row.nodeID), .ok ()⟩]) row :=
            { saw := listed.saw.mono longer
              holding := by
                rw [holding_concat]
                simp [acquires, listed.executionID]
              running := running
              task := task
              webhook := webhook
              delay := delay }
          have assigned : Assigned (past ++ [⟨.sys .now, .ok now⟩] ++ [⟨.sys (.recovery x.id row.nodeID), .ok ()⟩]) x d m row :=
            ⟨steers.copy.mono longer, steers.plan.mono longer, member, id, listed.executionID.symm, listed.orgID.symm⟩
          exact (executeClaimedNode_walk held assigned).bind fun after x' _ steered => walks_ret steered
      · rename_i idle
        have queued : row.status = .queued := opened.resolve_right idle
        exact stores (List.prefix_refl _) (.same task webhook queued delay)

theorem Steered.trans {x' x'' : WorkflowExecution} {after : List machine.Exchange} (same : SameExecution x x')
    (h : Steered x' d after x'') : Steered x d after x'' := ⟨h.1, same.trans h.2⟩

theorem Listed.same {row : WorkflowNodeExecution} (h : Listed past x row) {x' : WorkflowExecution} (same : SameExecution x x') :
    Listed past x' row := { h with orgID := h.orgID.trans same.orgID.symm, executionID := h.executionID.trans same.id.symm }

theorem reconcileExternalNodes_walk (nodes : List WorkflowNodeExecution) (changed : Bool) (steers : Steers past x d)
    (listed : ∀ n ∈ nodes, Listed past x n) :
    Rightly h (fun after r => Steered x d after r.2) past (reconcileExternalNodes h d nodes changed x) := by
  induction nodes generalizing past changed x with
  | nil => exact walks_ret ⟨steers, .refl x⟩
  | cons row rest ih =>
    unfold reconcileExternalNodes
    split
    · rename_i opened
      refine (reconcileNode_walk steers (listed row List.mem_cons_self) opened).bind ?_
      rintro after ⟨updated, x'⟩ grown ⟨steers', same⟩
      refine (ih (changed || updated) steers' fun n hn => ?_).imp fun _ _ _ steered => steered.trans same
      exact ((listed n (List.mem_cons_of_mem _ hn)).mono grown).same same
    · exact ih changed steers fun n hn => listed n (List.mem_cons_of_mem _ hn)

/-! ### Scheduling and finalizing -/

/-- The rows were read for the execution. -/
def ReadNodes (past : List machine.Exchange) (x : WorkflowExecution) (nodes : List WorkflowNodeExecution) : Prop :=
  ⟨.canvas (.getWorkflowNodeExecutions x.orgID x.id), .ok nodes⟩ ∈ past ∧
    ∀ n ∈ nodes, n.orgID = x.orgID ∧ n.workflowExecutionID = x.id

theorem ReadNodes.listed {nodes : List WorkflowNodeExecution} (h : ReadNodes past x nodes) {n : WorkflowNodeExecution}
    (hn : n ∈ nodes) : Listed past x n := ⟨⟨_, h.1, hn⟩, (h.2 n hn).1, (h.2 n hn).2⟩

theorem scheduleRunnableNodes_walk {nodes : List WorkflowNodeExecution} (todo : List WorkflowNode)
    (members : ∀ m ∈ todo, m ∈ d.nodeList) (steers : Steers past x d) (read : ReadNodes past x nodes) :
    Rightly h (fun after r => Steered x d after r.2) past (scheduleRunnableNodes h d nodes x todo) := by
  induction todo generalizing past with
  | nil => exact walks_ret ⟨steers, .refl x⟩
  | cons m rest ih =>
    have later : ∀ {after : List machine.Exchange}, past <+: after →
        Rightly h (fun after r => Steered x d after r.2) after (scheduleRunnableNodes h d nodes x rest) := fun grown =>
      ih (fun m hm => members m (List.mem_cons_of_mem _ hm)) (steers.mono grown) ⟨grown.subset read.1, read.2⟩
    unfold scheduleRunnableNodes
    split
    · split
      · exact walks_fail _
      · exact later (List.prefix_refl _)
      · rename_i outcome ready decided
        refine rightly_sys fun now => walks_perform ?_ fun answer won => ?_
        · refine ⟨x, d, m, nodes, _, steers.plan.mono (List.prefix_append _ _), rfl, rfl, members m List.mem_cons_self, rfl,
            decided, ready, ?_⟩
          exact ⟨past, [], rfl, read.1⟩
        cases answer with
        | none => exact later ((List.prefix_append _ _).trans (List.prefix_append _ _))
        | some claimed =>
          obtain ⟨org, execution, nodeID, running, unlinked⟩ := won
          simp only
          refine rightly_sys fun _ => ?_
          have held : Held (past ++ [⟨.sys .now, .ok now⟩] ++
              [⟨.canvas (.claimWorkflowNode x.orgID x.id m.id now), .ok (some claimed)⟩]) claimed :=
            { saw := ⟨_, List.mem_append_right _ (List.mem_singleton_self _), List.mem_singleton_self _⟩
              holding := by
                rw [holding_concat]
                simp [acquires, execution, nodeID]
              running := running
              task := unlinked.task
              webhook := unlinked.webhook
              delay := fun _ => unlinked.delay }
          have held := held.called ⟨.sys (.record (nodeMetric claimed .nodeExecutionStarted "")), .ok ()⟩ trivial
          have grown : past <+: past ++ [⟨.sys .now, .ok now⟩] ++
              [⟨.canvas (.claimWorkflowNode x.orgID x.id m.id now), .ok (some claimed)⟩] ++
              [⟨.sys (.record (nodeMetric claimed .nodeExecutionStarted "")), .ok ()⟩] :=
            ((List.prefix_append _ _).trans (List.prefix_append _ _)).trans (List.prefix_append _ _)
          split
          · refine rightly_sys fun now => ?_
            refine (updateNode_walk (.skip (held.called ⟨.sys .now, .ok now⟩ trivial) (held.saw.ticked now))).bind fun after _ longer _ => walks_ret ?_
            exact ⟨steers.mono ((grown.trans (List.prefix_append _ _)).trans longer), .refl x⟩
          · have assigned : Assigned _ x d m claimed :=
              ⟨steers.copy.mono grown, steers.plan.mono grown, members m List.mem_cons_self, nodeID.symm, execution.symm, org.symm⟩
            exact (executeClaimedNode_walk held assigned).bind fun after x' _ steered => walks_ret steered
    · exact later (List.prefix_refl _)

theorem touchRunningExecution_walk (steers : Steers past x d) :
    Rightly h (fun _ _ => True) past (touchRunningExecution x) := by
  refine rightly_sys fun now => walks_perform ?_ fun _ _ => walks_ret trivial
  exact ⟨x, now, Or.inr ⟨steers.copy.mono (List.prefix_append _ _), rfl, rfl⟩⟩

theorem finalizeExecutionIfComplete_walk (nodes : List WorkflowNodeExecution) (steers : Steers past x d) :
    Rightly h (fun _ _ => True) past (finalizeExecutionIfComplete d nodes x) := by
  unfold finalizeExecutionIfComplete
  split
  · exact touchRunningExecution_walk steers
  split
  · exact touchRunningExecution_walk steers
  split
  · exact walks_fail _
  · refine rightly_sys fun now => walks_perform ?_ fun updated _ => ?_
    · exact ⟨rfl, x, now, steers.copy.mono (List.prefix_append _ _), Or.inl ⟨_, rfl, rfl⟩⟩
    · split
      · exact (rightly_off (by simp [perform, Op.within])).imp fun _ _ _ _ => trivial
      · exact walks_ret trivial

/-! ### Advancing -/

theorem advanceLoop_walk (rounds : Nat) (steers : Steers past x d) :
    Rightly h (fun _ _ => True) past (advanceLoop h d rounds x) := by
  induction rounds generalizing past x with
  | zero => exact walks_ret trivial
  | succ rounds ih =>
    unfold advanceLoop
    refine walks_perform trivial fun nodes owned => ?_
    have read : ReadNodes (past ++ [⟨.canvas (.getWorkflowNodeExecutions x.orgID x.id), .ok nodes⟩]) x nodes :=
      ⟨List.mem_append_right _ (List.mem_singleton_self _), owned⟩
    refine (reconcileExternalNodes_walk nodes false (steers.mono (List.prefix_append _ _)) fun n hn => read.listed hn).bind ?_
    rintro after ⟨changed, x'⟩ - ⟨steers, same⟩
    simp only
    split
    · exact ih steers
    · refine walks_perform trivial fun nodes owned => ?_
      have read : ReadNodes (after ++ [⟨.canvas (.getWorkflowNodeExecutions x'.orgID x'.id), .ok nodes⟩]) x' nodes :=
        ⟨List.mem_append_right _ (List.mem_singleton_self _), owned⟩
      have steers := steers.mono (List.prefix_append after [⟨.canvas (.getWorkflowNodeExecutions x'.orgID x'.id), .ok nodes⟩])
      split
      · rename_i failed found
        have hf := List.mem_of_find?_eq_some found
        refine (failExecution_walk steers fun later grown => Or.inl ?_).bind fun _ _ _ _ => walks_ret trivial
        exact ⟨failed, (read.listed hf).saw.mono grown, (read.listed hf).executionID, by simpa using List.find?_some found, rfl, rfl⟩
      · refine (scheduleRunnableNodes_walk d.nodeList (fun _ hm => hm) steers read).bind ?_
        rintro after' ⟨progressed, x''⟩ grown ⟨steers, -⟩
        simp only
        split
        · exact ih steers
        · exact finalizeExecutionIfComplete_walk nodes steers

theorem markRunning_walk (read : ReadExecution past x) (live : x.status.terminal = false) (plan : Plans past x d) :
    Rightly h (fun after x' => Steers after x' d) past (markRunning x) := by
  unfold markRunning
  split
  · rename_i pending
    refine rightly_sys fun now => walks_perform ?_ fun updated _ => ?_
    · exact ⟨x, now, Or.inl ⟨read.mono (List.prefix_append _ _), pending, rfl, rfl⟩⟩
    have started : ∀ {after : List machine.Exchange}, past ++ [⟨.sys .now, .ok now⟩] ++
        [⟨.canvas (.updateWorkflowExecution (startedAs x now) [.pending]), .ok updated⟩] <+: after →
        Steers after (startedAs x now) d := by
      intro after grown
      have before : past <+: after := ((List.prefix_append _ _).trans (List.prefix_append _ _)).trans grown
      have stored : ⟨.canvas (.updateWorkflowExecution (startedAs x now) [.pending]), .ok updated⟩ ∈ after :=
        grown.subset (List.mem_append_right _ (List.mem_singleton_self _))
      exact ⟨.started (read.mono before) pending stored,
        (plan.mono before).same ⟨rfl, rfl, rfl, rfl, rfl, rfl, rfl, rfl, rfl⟩⟩
    simp only
    split
    · exact rightly_sys fun _ => walks_ret (started (List.prefix_append _ _))
    · exact walks_ret (started (List.prefix_refl _))
  · rename_i pending
    refine walks_ret ⟨.read read ?_, plan⟩
    cases status : x.status with
    | pending => exact absurd status pending
    | running => rfl
    | succeeded | failed | cancelled =>
      rw [status] at live
      cases live

theorem advanceExecution_walk (orgID workflowID executionID : UUID) :
    Rightly h (fun _ _ => True) past (advanceExecution h orgID workflowID executionID) := by
  refine walks_perform trivial fun x named => ?_
  simp only
  split
  · exact walks_ret trivial
  · rename_i live
    refine walks_perform trivial fun v _ => ?_
    simp only
    split
    · exact walks_fail _
    · have read : (⟨.canvas (.getWorkflowExecution orgID workflowID executionID), .ok x⟩ : machine.Exchange) ∈
          past ++ [⟨.canvas (.getWorkflowExecution orgID workflowID executionID), .ok x⟩] ++
            [⟨.canvas (.getWorkflowExecutionVersion orgID workflowID x.workflowVersionID), .ok v⟩] :=
        List.mem_append_left _ (List.mem_append_right _ (List.mem_singleton_self _))
      have plan : Plans (past ++ [⟨.canvas (.getWorkflowExecution orgID workflowID executionID), .ok x⟩] ++
          [⟨.canvas (.getWorkflowExecutionVersion orgID workflowID x.workflowVersionID), .ok v⟩]) x v.definition :=
        ⟨orgID, workflowID, executionID, x, v, read, named, .refl x, List.mem_append_right _ (List.mem_singleton_self _), rfl⟩
      exact (markRunning_walk ⟨_, _, _, read⟩ (by simpa using live) plan).bind fun after x' _ steers =>
        advanceLoop_walk _ steers

end Storing

/-! ### Starting, cancelling and reconciling -/

theorem newNodeExecutions_walk (orgID executionID : UUID) (now : Time) (todo : List WorkflowNode) :
    Rightly h (fun _ nodes => ∀ n ∈ nodes, NewNode n) past (newNodeExecutions orgID executionID now todo) := by
  induction todo generalizing past with
  | nil => exact walks_ret fun n hn => by cases hn
  | cons m rest ih =>
    refine rightly_sys fun id => ih.bind fun _ nodes _ new => walks_ret ?_
    exact List.forall_mem_cons.2 ⟨⟨rfl, rfl, rfl, rfl, rfl, ⟨rfl, rfl, rfl⟩⟩, new⟩

theorem createWorkflowExecution_walk {x : WorkflowExecution} {nodes : List WorkflowNodeExecution} (new : NewExecution x nodes) :
    Rightly h (fun _ _ => True) past (createWorkflowExecution x nodes) := by
  have reuse : ∀ {past : List machine.Exchange} (existing : WorkflowExecution),
      Rightly h (fun _ _ => True) past (reuseExecution existing x.requestFingerprint) := by
    intro past existing
    unfold reuseExecution
    split
    · exact walks_fail _
    · exact walks_ret trivial
  refine walks_attempt trivial fun answer _ => ?_
  split
  · exact reuse _
  · refine walks_perform new fun inserted _ => ?_
    simp only
    split
    · exact walks_ret trivial
    · exact walks_perform trivial fun existing _ => reuse existing
  · exact walks_fail _

theorem selectVersion_walk (orgID workflowID : UUID) (requested : Option Int) :
    Rightly h (fun _ _ => True) past (selectVersion orgID workflowID requested) := by
  have published : ∀ {past : List machine.Exchange} (version : WorkflowVersion), Rightly h (fun _ _ => True) past
      (if version.status ≠ .published then Script.fail .workflowVersionNotFound else pure version) := by
    intro past version
    split
    · exact walks_fail _
    · exact walks_ret trivial
  unfold selectVersion
  split
  · simp only
    split
    · exact walks_fail _
    · exact walks_perform trivial fun version _ => published version
  · exact walks_perform trivial fun version _ => published version

theorem admitExecution_walk (input : StartWorkflowExecutionInput) :
    Rightly h (fun _ _ => True) past (admitExecution h input) := by
  unfold admitExecution
  simp only
  split
  · exact walks_fail _
  refine walks_perform trivial fun workflow _ => ?_
  split
  · exact walks_fail _
  refine (selectVersion_walk _ _ _).bind fun _ version _ _ => ?_
  split
  · exact walks_fail _
  split
  · exact walks_fail _
  refine rightly_sys fun now => rightly_sys fun id => ?_
  refine (newNodeExecutions_walk _ _ _ _).bind fun _ nodes _ new => createWorkflowExecution_walk ?_
  exact ⟨rfl, rfl, rfl, rfl, rfl, new⟩

theorem startExecution_walk (input : StartWorkflowExecutionInput) :
    Rightly h (fun _ _ => True) past (startExecution h input) := by
  refine (admitExecution_walk input).bind ?_
  rintro after ⟨x, reused⟩ - -
  have advance : ∀ {past : List machine.Exchange}, Rightly h (fun _ _ => True) past
      (advanceExecution h x.orgID x.workflowID x.id >>= fun _ =>
        canvas (.getWorkflowExecution x.orgID x.workflowID x.id) >>= fun current =>
        .ret ((⟨current.id, current.workflowID, current.workflowVersion, current.status, current.createdAt⟩ :
          WorkflowExecutionStartResult), reused)) :=
    (advanceExecution_walk _ _ _).bind fun _ _ _ _ => walks_perform trivial fun _ _ => walks_ret trivial
  simp only
  split
  · exact walks_fail _
  split
  · exact rightly_sys fun _ => advance
  · exact advance

theorem cancelExecution_walk (orgID workflowID executionID : UUID) :
    Rightly h (fun _ _ => True) past (cancelExecution orgID workflowID executionID) := by
  refine rightly_sys fun now => walks_perform trivial fun x _ => rightly_sys fun _ => walks_attempt trivial fun answer _ => ?_
  split
  · exact (rightly_off (recordCancelled_off _)).bind fun _ _ _ _ => walks_ret trivial
  · exact walks_ret trivial

theorem reconcileAll_walk (executions : List WorkflowExecution) :
    Rightly h (fun _ _ => True) past (reconcileAll h executions) := by
  induction executions generalizing past with
  | nil => exact walks_ret trivial
  | cons x rest ih => exact (advanceExecution_walk _ _ _).catched.bind fun _ _ _ _ => ih

theorem fits_offRuns {request : Request} (outside : request.workflow = false) : request.Fits Footprint.offRuns where
  runs := fun workflow => by rw [outside] at workflow; cases workflow
  workflows := fun _ _ => trivial
  endpoints := fun _ _ => trivial
  results := fun _ _ _ _ => trivial
  sends := fun _ => trivial
  deliveries := fun _ => trivial
  requested := fun _ _ _ _ _ _ => trivial
  dispatched := fun _ _ _ => trivial
  events := fun _ _ => trivial
  posts := fun _ _ _ _ _ => trivial

theorem body_walk (request : Request) : Rightly h (fun _ _ => True) past (body h request) := by
  cases outside : request.workflow with
  | false => exact (rightly_off (body_calls h (fits_offRuns outside))).imp fun _ _ _ _ => trivial
  | true =>
    cases request with
    | startExecution input => exact (startExecution_walk input).bind fun _ _ _ _ => walks_ret trivial
    | advanceExecution orgID workflowID executionID =>
      exact (advanceExecution_walk _ _ _).bind fun _ _ _ _ => walks_ret trivial
    | cancelExecution orgID workflowID executionID =>
      exact (cancelExecution_walk _ _ _).bind fun _ _ _ _ => walks_ret trivial
    | reconcileActive limit =>
      have reconcile : Rightly h (fun _ _ => True) past (reconcileActive h limit) :=
        walks_perform trivial fun executions _ => reconcileAll_walk executions
      exact reconcile.bind fun _ _ _ _ => walks_ret trivial
    | _ => cases outside

end Programs

end Windylane
