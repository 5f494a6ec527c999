import Mathlib.Algebra.Order.BigOperators.Group.List
import Windylane.Theorems.Coherence
import Windylane.Theorems.Returns

/-! When AdvanceExecution has nothing left to do. Alone, every round but the last settles an open row or takes a row out of
    pending. A task, a webhook or a delay costs one round when it is executed and one more when it is observed, so the
    rounds are counted against a potential that such a row pays for twice. -/

namespace Windylane

open Conc Script Prog

-- the conditions on texts are not decided here
seal trimSpace

/-! ### The potential -/

/-- The node is still to be executed: nobody claimed it, or its claim left nothing behind. -/
def WorkflowNodeExecution.unexecuted (n : WorkflowNodeExecution) : Bool :=
  n.status = .pending || (n.status = .running && n.queueTaskID.isNone && n.webhookDeliveryID.isNone &&
    (n.nodeType ≠ .delay || n.availableAt.isNone))

/-- What the task or the delivery of the node says of its status and its attempts. -/
def reported (w : World) (n : WorkflowNodeExecution) : Option (WorkflowNodeExecutionStatus × Int) :=
  match n.queueTaskID, n.webhookDeliveryID with
  | some id, _ =>
    match Tasks.getByID n.orgID id w.tasks with
    | .ok task => some ((mirrorTask n task 0).status, (mirrorTask n task 0).attempt)
    | .error _ => none
  | none, some id =>
    match Webhooks.getWebhookDelivery n.orgID id w.hooks with
    | .ok delivery => some ((mirrorDelivery n delivery 0).status, (mirrorDelivery n delivery 0).attempt)
    | .error _ => none
  | none, none => none

/-- The row says what its task or its delivery says. -/
def agrees (w : World) (n : WorkflowNodeExecution) : Bool := reported w n = some (n.status, n.attempt)

/-- A round may still be needed for the row. -/
def unsettled (w : World) (n : WorkflowNodeExecution) : Bool := !n.status.terminal && !agrees w n

/-- The row is of a task, a webhook or a delay that is still to be executed. -/
def outstanding (n : WorkflowNodeExecution) : Bool := n.nodeType.outside && n.unexecuted

/-- The rounds that the row may still take. -/
def charge (w : World) (n : WorkflowNodeExecution) : Nat := (unsettled w n).toNat + (outstanding n).toNat

/-- The rows of the execution. -/
def rowsOf (executionID : UUID) (w : World) : List WorkflowNodeExecution :=
  w.canvas.nodes.filter fun n => n.workflowExecutionID = executionID

def charges (executionID : UUID) (w : World) : Nat := ((rowsOf executionID w).map (charge w)).sum

section Charges
variable {w w' : World} {executionID : UUID}

theorem sum_charge (w : World) (rows : List WorkflowNodeExecution) :
    (rows.map (charge w)).sum = rows.countP (unsettled w) + rows.countP outstanding := by
  induction rows with
  | nil => rfl
  | cons n rows ih =>
    rw [List.map_cons, List.sum_cons, ih, List.countP_cons, List.countP_cons, charge]
    cases unsettled w n <;> cases outstanding n <;> simp <;> omega

theorem getByID_added (added : WorkAdded w w') {orgID id : UUID} {task : Task} (found : Tasks.getByID orgID id w.tasks = .ok task) :
    ∃ task', Tasks.getByID orgID id w'.tasks = .ok task' ∧ SameWork task task' := by
  obtain ⟨f, more, tasks, same, -⟩ := added.tasks
  have kept : (fun r : Task => r.orgID = orgID && r.id = id && r.deletedAt.isNone : Task → Bool) ∘ f =
      fun r : Task => r.orgID = orgID && r.id = id && r.deletedAt.isNone := by
    funext r
    simp [(same r).orgID, (same r).id, (same r).deletedAt]
  unfold Tasks.getByID at found ⊢
  split at found
  · rename_i task search
    cases found
    rw [tasks, List.find?_append, List.find?_map, kept, search]
    exact ⟨f task, rfl, same task⟩
  · cases found

theorem getWebhookDelivery_added (added : WorkAdded w w') {orgID id : UUID} {delivery : WebhookDelivery}
    (found : Webhooks.getWebhookDelivery orgID id w.hooks = .ok delivery) :
    Webhooks.getWebhookDelivery orgID id w'.hooks = .ok delivery := by
  obtain ⟨more, deliveries, -⟩ := added.deliveries
  unfold Webhooks.getWebhookDelivery at found ⊢
  split at found
  · rename_i search
    cases found
    rw [deliveries, List.find?_append, search]
    rfl
  · cases found

/-- What the node becomes depends on the status and the attempts of its task alone. -/
theorem mirrorTask_same {task task' : Task} (same : SameWork task task') (n n' : WorkflowNodeExecution) (now now' : Time) :
    (mirrorTask n' task' now').status = (mirrorTask n task now).status ∧
      (mirrorTask n' task' now').attempt = (mirrorTask n task now).attempt := by
  unfold mirrorTask
  rw [same.status, same.attempts]
  cases task.status <;> exact ⟨rfl, rfl⟩

theorem mirrorDelivery_same (delivery : WebhookDelivery) (n n' : WorkflowNodeExecution) (now now' : Time) :
    (mirrorDelivery n' delivery now').status = (mirrorDelivery n delivery now).status ∧
      (mirrorDelivery n' delivery now').attempt = (mirrorDelivery n delivery now).attempt := by
  unfold mirrorDelivery
  cases delivery.status <;> exact ⟨rfl, rfl⟩

theorem reported_task {n : WorkflowNodeExecution} {id : UUID} {task : Task} (link : n.queueTaskID = some id)
    (found : Tasks.getByID n.orgID id w.tasks = .ok task) (row : WorkflowNodeExecution) (now : Time) :
    reported w n = some ((mirrorTask row task now).status, (mirrorTask row task now).attempt) := by
  obtain ⟨status, attempt⟩ := mirrorTask_same (.refl task) row n now 0
  simp only [reported, link, found, status, attempt]

theorem reported_delivery {n : WorkflowNodeExecution} {id : UUID} {delivery : WebhookDelivery} (unlinked : n.queueTaskID = none)
    (link : n.webhookDeliveryID = some id) (found : Webhooks.getWebhookDelivery n.orgID id w.hooks = .ok delivery)
    (row : WorkflowNodeExecution) (now : Time) :
    reported w n = some ((mirrorDelivery row delivery now).status, (mirrorDelivery row delivery now).attempt) := by
  obtain ⟨status, attempt⟩ := mirrorDelivery_same delivery row n now 0
  simp only [reported, unlinked, link, found, status, attempt]

/-- The links of the rows are the same. -/
structure SameLinks (n n' : WorkflowNodeExecution) : Prop where
  orgID : n'.orgID = n.orgID
  task : n'.queueTaskID = n.queueTaskID
  webhook : n'.webhookDeliveryID = n.webhookDeliveryID

/-- Work that was added does not change what was reported. -/
theorem reported_added (added : WorkAdded w w') {n n' : WorkflowNodeExecution} (same : SameLinks n n')
    {report : WorkflowNodeExecutionStatus × Int} (reports : reported w n = some report) : reported w' n' = some report := by
  cases task : n.queueTaskID with
  | some id =>
    cases found : Tasks.getByID n.orgID id w.tasks with
    | ok t =>
      obtain ⟨t', found', work⟩ := getByID_added added found
      rw [reported_task task found n 0] at reports
      rw [← same.orgID] at found'
      obtain ⟨status, attempt⟩ := mirrorTask_same work n n' 0 0
      rw [reported_task (same.task.trans task) found' n' 0, status, attempt]
      exact reports
    | error e => simp [reported, task, found] at reports
  | none =>
    cases delivery : n.webhookDeliveryID with
    | some id =>
      cases found : Webhooks.getWebhookDelivery n.orgID id w.hooks with
      | ok v =>
        have found' := getWebhookDelivery_added added found
        rw [← same.orgID] at found'
        rw [reported_delivery task delivery found n 0] at reports
        rw [reported_delivery (same.task.trans task) (same.webhook.trans delivery) found' n 0]
        exact reports
      | error e => simp [reported, task, delivery, found] at reports
    | none => simp [reported, task, delivery] at reports

theorem agrees_added (added : WorkAdded w w') {n : WorkflowNodeExecution} (agreed : agrees w n = true) : agrees w' n = true := by
  unfold agrees at agreed ⊢
  exact decide_eq_true (reported_added added ⟨rfl, rfl, rfl⟩ (of_decide_eq_true agreed))

theorem charge_added (added : WorkAdded w w') (n : WorkflowNodeExecution) : charge w' n ≤ charge w n := by
  have fewer : (unsettled w' n).toNat ≤ (unsettled w n).toNat := by
    unfold unsettled
    cases agreed : agrees w n with
    | true => simp [agrees_added added agreed]
    | false =>
      cases n.status.terminal
      · exact Bool.toNat_le _
      · simp
  unfold charge
  omega

/-- What an update of rows does to the potential. -/
theorem charges_update {p : WorkflowNodeExecution → Bool} {f : WorkflowNodeExecution → WorkflowNodeExecution}
    (added : WorkAdded w w') (nodes : w'.canvas.nodes = Table.update p f w.canvas.nodes)
    (own : ∀ n, (f n).workflowExecutionID = n.workflowExecutionID)
    (falls : ∀ n ∈ rowsOf executionID w, p n = true → charge w' (f n) ≤ charge w n) :
    charges executionID w' ≤ charges executionID w ∧
      ((∃ n ∈ rowsOf executionID w, p n = true ∧ charge w' (f n) < charge w n) → charges executionID w' < charges executionID w) := by
  have rows : rowsOf executionID w' = Table.update p f (rowsOf executionID w) := by
    unfold rowsOf
    rw [nodes, Table.filter_update]
    intro n
    rw [own]
  have each : ∀ n ∈ rowsOf executionID w, charge w' (if p n then f n else n) ≤ charge w n := by
    intro n hn
    split
    · rename_i chosen
      exact falls n hn chosen
    · exact charge_added added n
  have after : charges executionID w' = ((rowsOf executionID w).map fun n => charge w' (if p n then f n else n)).sum := by
    unfold charges
    rw [rows, Table.update, List.map_map]
    rfl
  rw [after]
  refine ⟨List.sum_le_sum each, ?_⟩
  rintro ⟨n, hn, chosen, less⟩
  refine List.sum_lt_sum _ _ each ⟨n, hn, ?_⟩
  rw [if_pos chosen]
  exact less

theorem charge_ended {n : WorkflowNodeExecution} (ended : n.status.terminal = true) (w : World) : charge w n = 0 := by
  have executed : outstanding n = false := by
    unfold outstanding WorkflowNodeExecution.unexecuted
    cases status : n.status with
    | pending | queued | running =>
      rw [status] at ended
      cases ended
    | succeeded | failed | skipped | cancelled => simp
  simp [charge, unsettled, ended, executed]

/-- A row that waits for its work is not to be executed. -/
theorem outstanding_queued {n : WorkflowNodeExecution} (queued : n.status = .queued) : outstanding n = false := by
  simp [outstanding, WorkflowNodeExecution.unexecuted, queued]

theorem charge_queued {n : WorkflowNodeExecution} (queued : n.status = .queued) (w : World) : charge w n ≤ 1 := by
  unfold charge
  rw [outstanding_queued queued]
  exact Bool.toNat_le _

/-- A row that agrees with its work costs nothing. -/
theorem charge_agreed {n : WorkflowNodeExecution} (opened : n.status = .queued ∨ n.status = .running) (agreed : agrees w n = true) :
    charge w n = 0 := by
  have executed : outstanding n = false := by
    rcases opened with queued | running
    · exact outstanding_queued queued
    · have reports := of_decide_eq_true agreed
      cases task : n.queueTaskID with
      | some id => simp [outstanding, WorkflowNodeExecution.unexecuted, running, task]
      | none =>
        cases delivery : n.webhookDeliveryID with
        | some id => simp [outstanding, WorkflowNodeExecution.unexecuted, running, delivery]
        | none => simp [reported, task, delivery] at reports
  simp [charge, unsettled, agreed, executed]

theorem charge_pos {n : WorkflowNodeExecution} (opened : n.status.terminal = false) (differs : agrees w n = false) :
    1 ≤ charge w n := by
  simp [charge, unsettled, opened, differs]

theorem agrees_unlinked {n : WorkflowNodeExecution} (task : n.queueTaskID = none) (webhook : n.webhookDeliveryID = none) (w : World) :
    agrees w n = false := by
  simp [agrees, reported, task, webhook]

/-- A row that has no work yet. -/
theorem charge_unexecuted {n : WorkflowNodeExecution} (task : n.queueTaskID = none) (webhook : n.webhookDeliveryID = none)
    (executed : n.unexecuted = true) (w : World) : charge w n = 1 + n.nodeType.outside.toNat := by
  have opened : n.status.terminal = false := by
    cases status : n.status with
    | pending | queued | running => rfl
    | succeeded | failed | skipped | cancelled => simp [WorkflowNodeExecution.unexecuted, status] at executed
  simp [charge, unsettled, outstanding, agrees_unlinked task webhook, executed, opened]

/-- What was observed of an open row, stored because it differs, costs less. -/
theorem charge_observed (added : WorkAdded w w') {row node : WorkflowNodeExecution} (same : SameLinks row node)
    (opened : row.status = .queued ∨ row.status = .running) (reports : reported w row = some (node.status, node.attempt))
    (status : node.status = .queued ∨ node.status = .running ∨ node.status = .succeeded ∨ node.status = .failed)
    (completed : node.status.terminal = false → node.completedAt = none)
    (differs : node.status ≠ row.status ∨ node.attempt ≠ row.attempt ∨ node.completedAt.isSome = true) :
    charge w' node < charge w row := by
  have live : row.status.terminal = false := by rcases opened with status | status <;> rw [status] <;> rfl
  have changed : node.status ≠ row.status ∨ node.attempt ≠ row.attempt := by
    rcases differs with differs | differs | ended
    · exact Or.inl differs
    · exact Or.inr differs
    · refine Or.inl fun same => ?_
      rw [completed (by rw [same]; exact live)] at ended
      cases ended
  have disagrees : agrees w row = false := by
    unfold agrees
    rw [reports, decide_eq_false_iff_not]
    intro agree
    obtain ⟨status, attempt⟩ := Prod.mk.inj (Option.some.inj agree)
    rcases changed with changed | changed
    · exact changed status
    · exact changed attempt
  have settled : charge w' node = 0 := by
    rcases status with status | status | ended | ended
    · exact charge_agreed (Or.inl status) (decide_eq_true (reported_added added same reports))
    · exact charge_agreed (Or.inr status) (decide_eq_true (reported_added added same reports))
    · exact charge_ended (by rw [ended]; rfl) w'
    · exact charge_ended (by rw [ended]; rfl) w'
  have := charge_pos live disagrees
  omega

end Charges

/-! ### One row -/

section Rounds
variable {h : Host} {w₀ w : World} {pid : Nat} {c : Config machine} {x : WorkflowExecution} {d : WorkflowDefinition} {r : Run}
  {row node : WorkflowNodeExecution}

/-- The execution is still under way while its row and its version are as they were. -/
theorem Underway.again (fresh : w₀.Fresh) (run : Underway x d r c) {c' : Config machine}
    (executions : c'.world.canvas.executions = c.world.canvas.executions)
    (versions : c'.world.canvas.versions = c.world.canvas.versions) (known : ∃ s, Reachable h anything w₀ s ∧ s.config = c') :
    ∃ r', Underway x d r' c' := by
  obtain ⟨s, reach, rfl⟩ := known
  have inv := canvas_inv fresh reach
  have hx : r.execution ∈ s.config.world.canvas.executions := executions ▸ runOf_mem run.stored
  obtain ⟨v, hv, pins⟩ := inv.pins _ _ (inv.runOf_of_mem hx)
  obtain ⟨r', run'⟩ := underway_of_mem fresh reach hx run.live hv pins.id
  have pinned := run'.pinned
  unfold definitionOf at pinned
  rw [run'.same.workflowVersionID, versions] at pinned
  have same := run.pinned
  unfold definitionOf at same
  rw [pinned] at same
  cases same
  exact ⟨r', run'.of_same run.same.symm⟩

theorem Underway.mem_rowsOf (run : Underway x d r c) {n : WorkflowNodeExecution} : n ∈ rowsOf x.id c.world ↔ n ∈ r.nodes := by
  rw [(runOf_eq_some.1 run.stored).2]
  rfl

/-- The rows moved on, and the execution was left as it is. -/
structure Progressed (x : WorkflowExecution) (w w' : World) : Prop where
  executions : w'.canvas.executions = w.canvas.executions
  versions : w'.canvas.versions = w.canvas.versions
  charges : charges x.id w' < charges x.id w

theorem Progressed.trans {w' w'' : World} (first : Progressed x w w') (second : Progressed x w' w'') : Progressed x w w'' :=
  ⟨second.executions.trans first.executions, second.versions.trans first.versions, second.charges.trans first.charges⟩

/-- Storing a cheaper row over a row moves on. -/
theorem progressed_store (run : Underway x d r c) (hrow : row ∈ r.nodes) (same : SameNode row node) {w' : World}
    (added : WorkAdded c.world w') (canvas : w'.canvas = (Canvas.updateWorkflowNodeExecution node row.status c.world.canvas).2)
    (falls : charge w' node < charge c.world row) : Progressed x c.world w' := by
  refine ⟨by rw [canvas]; rfl, by rw [canvas]; rfl, ?_⟩
  have nodes : w'.canvas.nodes = Table.update (fun n => n.orgID = node.orgID && n.workflowExecutionID = node.workflowExecutionID &&
      n.id = node.id && n.status = row.status) (Canvas.overwrite node) c.world.canvas.nodes := by
    rw [canvas]
    rfl
  have mine : ∀ n ∈ rowsOf x.id c.world, (n.orgID = node.orgID && n.workflowExecutionID = node.workflowExecutionID &&
      n.id = node.id && n.status = row.status) = true → n = row := by
    intro n hn chosen
    simp only [Bool.and_eq_true, decide_eq_true_eq] at chosen
    exact Table.eq_of_key run.inv.ids (run.mem_rowsOf.1 hn) hrow (chosen.1.2.trans same.id)
  refine (charges_update added nodes (fun n => rfl) fun n hn chosen => ?_).2 ⟨row, run.mem_rowsOf.2 hrow, ?_, ?_⟩
  · rw [mine n hn chosen, overwrite_eq same]
    exact falls.le
  · simp [same.orgID, same.workflowExecutionID, same.id]
  · rw [overwrite_eq same]
    exact falls

/-- A row was stored over and it is cheaper now; the rows of the other nodes are as they were. -/
structure Settled (x : WorkflowExecution) (row : WorkflowNodeExecution) (w w' : World) : Prop extends Progressed x w w' where
  others : ∀ n ∈ w.canvas.nodes, n.id ≠ row.id → n ∈ w'.canvas.nodes

theorem settled_store (run : Underway x d r c) (hrow : row ∈ r.nodes) (same : SameNode row node) {w' : World}
    (added : WorkAdded c.world w') (canvas : w'.canvas = (Canvas.updateWorkflowNodeExecution node row.status c.world.canvas).2)
    (falls : charge w' node < charge c.world row) : Settled x row c.world w' := by
  refine ⟨progressed_store run hrow same added canvas falls, fun n hn other => ?_⟩
  rw [canvas]
  exact (onlyRow_update same row.status c.world).others n hn (Or.inr other)

/-- The store takes the row. -/
theorem updated_row (run : Underway x d r c) (hrow : row ∈ r.nodes) (same : SameNode row node) :
    (Canvas.updateWorkflowNodeExecution node row.status c.world.canvas).1 = true := by
  have chosen : (fun n : WorkflowNodeExecution => n.orgID = node.orgID && n.workflowExecutionID = node.workflowExecutionID &&
      n.id = node.id && n.status = row.status : WorkflowNodeExecution → Bool) = fun n => (n.orgID = node.orgID &&
      n.workflowExecutionID = node.workflowExecutionID && n.id = node.id && n.status = row.status) &&
      (n.workflowExecutionID = x.id : Bool) := by
    funext n
    have own : node.workflowExecutionID = x.id := by
      rw [same.workflowExecutionID, (run.inv.owned row hrow).2, run.same.id]
    rw [own]
    cases decide (n.workflowExecutionID = x.id) <;> simp
  refine decide_eq_true ?_
  rw [chosen, ← List.countP_filter, ← (runOf_eq_some.1 run.stored).2]
  refine Table.countP_unique run.inv.ids hrow ?_ fun q hq chosen => ?_
  · simp [same.orgID, same.workflowExecutionID, same.id]
  · simp only [Bool.and_eq_true, decide_eq_true_eq] at chosen
    exact chosen.1.2.trans same.id

/-- What becomes of an open row. -/
def Reconciles (x : WorkflowExecution) (row : WorkflowNodeExecution) (w : World) (res : Except Err (Bool × WorkflowExecution))
    (c : Config machine) : Prop :=
  Over x.id c ∨ (res = .ok (true, x) ∧ Settled x row w c.world) ∨ (res = .ok (false, x) ∧ c.world = w)

theorem storeObserved_settles {R : State → Prop} (run : Underway x d r c) (hrow : row ∈ r.nodes) (same : SameNode row node) (now : Time)
    (falls : node.status ≠ row.status ∨ node.attempt ≠ row.attempt ∨ node.completedAt.isSome = true →
      charge c.world { node with updatedAt := now } < charge c.world row) :
    RunsAlone R pid (Reconciles x row c.world) (storeObserved row node now >>= fun updated => pure (updated, x)) c := by
  have same : SameNode row { node with updatedAt := now } :=
    ⟨same.id, same.orgID, same.workflowExecutionID, same.nodeID, same.nodeType, same.createdAt⟩
  unfold storeObserved
  split
  · rename_i differs
    refine Solo.bind (updateNode_alone _ _ rfl) ?_ ?_
    · rintro updated c' ⟨heq, hc'⟩
      rw [updated_row run hrow same] at heq
      cases heq
      have less : charge c'.world { node with updatedAt := now } < charge c.world row :=
        (charge_added (.of_eq (by rw [hc']) (by rw [hc'])) _).trans_lt (falls differs)
      exact solo_ret (Or.inr (Or.inl ⟨rfl, settled_store run hrow same (.of_eq (by rw [hc']) (by rw [hc'])) (by rw [hc']) less⟩))
    · rintro e c' ⟨heq, -⟩
      cases heq
  · exact solo_ret (Or.inr (Or.inr ⟨rfl, rfl⟩))

theorem lives_of_canvas {w w' : World} (lives : Lives x w) (same : w'.canvas = w.canvas) : Lives x w' := by
  unfold Lives
  rw [same]
  exact lives

/-- A claim is executed: the execution fails, or the row is cheaper. -/
theorem performed_settles {m : WorkflowNode} (run : Underway x d r c) (hrow : row ∈ r.nodes) (running : row.status = .running)
    (task : row.queueTaskID = none) (webhook : row.webhookDeliveryID = none) (unexecuted : row.unexecuted = true)
    (type : m.type = row.nodeType) {res : Except Err WorkflowExecution} {c' : Config machine}
    (performed : Performed x m row c.world res c') : Over x.id c' ∨ res = .ok x ∧ Settled x row c.world c'.world := by
  rcases performed with finished | ⟨rfl, added, node, same, status, canvas⟩
  · exact Or.inl finished
  · rw [← running] at canvas
    refine Or.inr ⟨rfl, settled_store run hrow same added canvas ?_⟩
    rw [charge_unexecuted task webhook unexecuted, ← type]
    split at status
    · rename_i outside
      rw [outside]
      exact Nat.lt_of_le_of_lt (charge_queued status _) (by decide)
    · rw [charge_ended (by rw [status]; rfl)]
      omega

theorem reconcileNode_settles (fresh : w₀.Fresh) (run : Underway x d r c) (hrow : row ∈ r.nodes)
    (opened : row.status = .queued ∨ row.status = .running) (coherent : NodeCoherent row) :
    RunsAlone (Reachable h anything w₀) pid (Reconciles x row c.world) (reconcileNode h d x row) c := by
  have live : row.status.terminal = false := by rcases opened with status | status <;> rw [status] <;> rfl
  have unfinished : row.completedAt = none := by
    by_contra completed
    rw [coherent.completed.1 completed] at live
    cases live
  have org : row.orgID = x.orgID := (run.inv.owned row hrow).1.trans run.same.orgID
  have store : ∀ {node : WorkflowNodeExecution} {now : Time} {c' : Config machine}, c'.world = c.world → SameNode row node →
      (node.status ≠ row.status ∨ node.attempt ≠ row.attempt ∨ node.completedAt.isSome = true →
        charge c.world { node with updatedAt := now } < charge c.world row) →
      RunsAlone (Reachable h anything w₀) pid (Reconciles x row c.world)
        (storeObserved row node now >>= fun updated => pure (updated, x)) c' := by
    intro node now c' hc' same falls
    rw [← hc'] at falls ⊢
    exact storeObserved_settles (run.of_world hc') hrow same now falls
  unfold reconcileNode
  refine alone_sys rfl fun now c1 hc1 => ?_
  split
  · rename_i taskID link
    refine alone_tryTask hc1 fun env c2 hc2 => ?_
    simp only [TaskOp.run] at hc2 ⊢
    cases found : Tasks.getByID x.orgID taskID c.world.tasks with
    | error e =>
      have missing : e = .taskNotFound := by
        unfold Tasks.getByID at found
        split at found
        · cases found
        · exact (Except.error.inj found).symm
      subst missing
      exact solo_ret (Or.inr (Or.inr ⟨rfl, hc2⟩))
    | ok task =>
      have observed := mirrorTask_observed row task now
      rw [← org] at found
      refine store hc2 observed.same fun differs => ?_
      refine charge_observed (.of_eq rfl rfl) ⟨observed.same.orgID, observed.task, observed.webhook⟩ opened
        (reported_task link found row now) observed.status (fun opened => ?_) differs
      rw [← unfinished]
      unfold mirrorTask at opened ⊢
      split at opened <;> first | rfl | cases opened
  · rename_i deliveryID task link
    refine alone_tryHook hc1 fun env c2 hc2 => ?_
    simp only [HookOp.run] at hc2 ⊢
    cases found : Webhooks.getWebhookDelivery x.orgID deliveryID c.world.hooks with
    | error e =>
      have missing : e = .webhookDeliveryNotFound := by
        unfold Webhooks.getWebhookDelivery at found
        split at found
        · cases found
        · exact (Except.error.inj found).symm
      subst missing
      exact solo_ret (Or.inr (Or.inr ⟨rfl, hc2⟩))
    | ok delivery =>
      have observed := mirrorDelivery_observed row delivery now
      rw [← org] at found
      refine store hc2 observed.same fun differs => ?_
      refine charge_observed (.of_eq rfl rfl) ⟨observed.same.orgID, observed.task, observed.webhook⟩ opened
        (reported_delivery task link found row now) observed.status (fun opened => ?_) differs
      rw [← unfinished]
      unfold mirrorDelivery at opened ⊢
      split at opened <;> first | rfl | cases opened
  · rename_i task webhook
    split
    · refine store hc1 ?_ fun differs => ?_
      · unfold resumeDelay
        split <;> exact ⟨rfl, rfl, rfl, rfl, rfl, rfl⟩
      · unfold resumeDelay at differs ⊢
        split at differs
        · rename_i due
          rw [if_pos due, charge_ended rfl]
          exact charge_pos live (agrees_unlinked task webhook _)
        · simp [unfinished] at differs
    · rename_i undelayed
      split
      · rename_i running
        split
        · exact solo_ret (Or.inr (Or.inr ⟨rfl, hc1⟩))
        · have unexecuted : row.unexecuted = true := by
            unfold WorkflowNodeExecution.unexecuted
            by_cases delay : row.nodeType = .delay
            · rw [if_pos delay] at undelayed
              simp [running, task, webhook, undelayed]
            · simp [running, task, webhook, delay]
          obtain ⟨m, hm, id, type⟩ := run.inv.node_of_row hrow
          rw [← id, run.inv.node?_eq hm]
          refine alone_sys hc1 fun _ c2 hc2 => ?_
          refine Solo.bind (executeClaimedNode_alone fresh run.lives row hc2) ?_ ?_
          · intro y c3 performed
            rcases performed_settles run hrow running task webhook unexecuted type performed with finished | ⟨heq, settled⟩
            · exact solo_ret (Or.inl finished)
            · cases heq
              exact solo_ret (Or.inr (Or.inl ⟨rfl, settled⟩))
          · intro e c3 performed
            rcases performed_settles run hrow running task webhook unexecuted type performed with finished | ⟨heq, -⟩
            · exact Or.inl finished
            · cases heq
      · refine store hc1 (.refl row) fun differs => ?_
        simp [unfinished] at differs

/-- The open rows are settled one after the other. -/
theorem reconcileExternalNodes_settles (fresh : w₀.Fresh) {rows : List WorkflowNodeExecution} (run : Underway x d r c)
    (stored : ∀ n ∈ rows, n ∈ r.nodes) (distinct : (rows.map (·.id)).Nodup) (changed : Bool) :
    RunsAlone (Reachable h anything w₀) pid (fun res c' => Over x.id c' ∨ (res = .ok (changed, x) ∧ c'.world = c.world) ∨
      (res = .ok (true, x) ∧ Progressed x c.world c'.world)) (reconcileExternalNodes h d rows changed x) c := by
  induction rows generalizing changed c r with
  | nil => exact solo_ret (Or.inr (Or.inl ⟨rfl, rfl⟩))
  | cons row rows ih =>
    obtain ⟨new, distinct⟩ := List.nodup_cons.1 distinct
    have stored' : ∀ n ∈ rows, n ∈ r.nodes := fun n hn => stored n (List.mem_cons_of_mem _ hn)
    unfold reconcileExternalNodes
    split
    · rename_i opened
      refine .assume ?_
      rintro ⟨s, reach, rfl⟩
      have hrow := stored row List.mem_cons_self
      have coherent := (rows_coherent fresh reach).2 row (List.mem_filter.1 (run.mem_rowsOf.2 hrow)).1
      refine Solo.bind (reconcileNode_settles fresh run hrow opened coherent) ?_ ?_
      · rintro ⟨updated, y⟩ c1 (finished | ⟨heq, settled⟩ | ⟨heq, hc1⟩)
        · exact (over_alone fresh finished _).imp fun _ _ _ => Or.inl
        · cases heq
          dsimp only
          rw [Bool.or_true]
          refine .assume fun known => ?_
          obtain ⟨r', run'⟩ := run.again fresh settled.executions settled.versions known
          have kept : ∀ n ∈ rows, n ∈ r'.nodes := by
            intro n hn
            obtain ⟨hn', own⟩ := List.mem_filter.1 (run.mem_rowsOf.2 (stored' n hn))
            exact run'.mem_rowsOf.1 (List.mem_filter.2 ⟨settled.others n hn' fun same => new (List.mem_map.2 ⟨n, hn, same⟩), own⟩)
          refine (ih run' kept distinct true).imp ?_
          rintro res c2 - (finished | ⟨rfl, hc2⟩ | ⟨rfl, more⟩)
          · exact Or.inl finished
          · rw [hc2]
            exact Or.inr (Or.inr ⟨rfl, settled.toProgressed⟩)
          · exact Or.inr (Or.inr ⟨rfl, settled.toProgressed.trans more⟩)
        · cases heq
          dsimp only
          rw [Bool.or_false, ← hc1]
          exact ih (run.of_world hc1) stored' distinct changed
      · rintro e c1 (finished | ⟨heq, -⟩ | ⟨heq, -⟩)
        · exact Or.inl finished
        · cases heq
        · cases heq
    · exact ih run stored' distinct changed

/-! ### Scheduling -/

/-- A claim alone costs nothing. -/
theorem charges_claim (run : Underway x d r c) (nodeID : String) (now : Time) :
    charges x.id (claimedIn x nodeID now c.world) ≤ charges x.id c.world := by
  unfold claimedIn Canvas.claimWorkflowNode
  dsimp only
  split
  · refine And.left (charges_update (f := Canvas.claimed now) (.of_eq rfl rfl) rfl (fun n => rfl) fun n hn chosen => ?_)
    simp only [Bool.and_eq_true, decide_eq_true_eq] at chosen
    have unlinked := (run.inv.rows n (run.mem_rowsOf.1 hn)).untouched chosen.2
    have before := charge_unexecuted unlinked.task unlinked.webhook (by simp [WorkflowNodeExecution.unexecuted, chosen.2]) c.world
    have after := charge_unexecuted (n := Canvas.claimed now n) unlinked.task unlinked.webhook
      (by simp [WorkflowNodeExecution.unexecuted, Canvas.claimed, unlinked.task, unlinked.webhook, unlinked.delay])
    rw [before, after]
    exact Nat.le_refl _
  · exact Nat.le_refl _

theorem claimedIn_executions (x : WorkflowExecution) (nodeID : String) (now : Time) (w : World) :
    (claimedIn x nodeID now w).canvas.executions = w.canvas.executions ∧
      (claimedIn x nodeID now w).canvas.versions = w.canvas.versions := by
  unfold claimedIn Canvas.claimWorkflowNode
  dsimp only
  split <;> exact ⟨rfl, rfl⟩

theorem settleClaim_settles (fresh : w₀.Fresh) {m : WorkflowNode} (ready : Readiness) (run : Underway x d r c) (hrow : row ∈ r.nodes)
    (running : row.status = .running) (unlinked : Unlinked row) (type : m.type = row.nodeType) :
    RunsAlone (Reachable h anything w₀) pid (fun res c' => Over x.id c' ∨ (res = .ok (true, x) ∧ Progressed x c.world c'.world))
      (settleClaim h x m ready row) c := by
  have unexecuted : row.unexecuted = true := by
    simp [WorkflowNodeExecution.unexecuted, running, unlinked.task, unlinked.webhook, unlinked.delay]
  unfold settleClaim
  refine alone_sys rfl fun _ c1 hc1 => ?_
  split
  · refine alone_sys hc1 fun now c2 hc2 => ?_
    refine Solo.bind (updateNode_alone _ _ hc2) ?_ ?_
    · rintro _ c3 ⟨-, hc3⟩
      have same : SameNode row { row with status := .skipped, completedAt := some now, updatedAt := now } :=
        ⟨rfl, rfl, rfl, rfl, rfl, rfl⟩
      refine solo_ret (Or.inr ⟨rfl, progressed_store run hrow same (.of_eq (by rw [hc3]) (by rw [hc3])) (by rw [hc3, running]) ?_⟩)
      rw [charge_ended rfl, charge_unexecuted unlinked.task unlinked.webhook unexecuted]
      omega
    · rintro e c3 ⟨heq, -⟩
      cases heq
  · refine Solo.bind (executeClaimedNode_alone fresh run.lives row hc1) ?_ ?_
    · intro y c2 performed
      rcases performed_settles run hrow running unlinked.task unlinked.webhook unexecuted type performed with
        finished | ⟨heq, settled⟩
      · exact solo_ret (Or.inl finished)
      · cases heq
        exact solo_ret (Or.inr ⟨rfl, settled.toProgressed⟩)
    · intro e c2 performed
      rcases performed_settles run hrow running unlinked.task unlinked.webhook unexecuted type performed with
        finished | ⟨heq, -⟩
      · exact Or.inl finished
      · cases heq

/-- No pending node is runnable or skippable. -/
def Quiescent (x : WorkflowExecution) (d : WorkflowDefinition) (w : World) : Prop :=
  ∀ m ∈ d.nodeList, (stateOf (Canvas.getWorkflowNodeExecutions x.orgID x.id w.canvas) m.id).map (·.status) = some .pending →
    workflowNodeReadiness d (Canvas.getWorkflowNodeExecutions x.orgID x.id w.canvas) m = .ok .waiting

theorem Quiescent.of_nodes {w' : World} (quiescent : Quiescent x d w) (nodes : w'.canvas.nodes = w.canvas.nodes) : Quiescent x d w' := by
  have rows : Canvas.getWorkflowNodeExecutions x.orgID x.id w'.canvas = Canvas.getWorkflowNodeExecutions x.orgID x.id w.canvas := by
    unfold Canvas.getWorkflowNodeExecutions
    rw [nodes]
  unfold Quiescent
  rw [rows]
  exact quiescent

theorem scheduleRunnableNodes_settles (fresh : w₀.Fresh) (accepted : (validateWorkflowDefinition h.uuidParse d).valid = true)
    (run : Underway x d r c) {c' : Config machine} (hc' : c'.world = c.world) :
    RunsAlone (Reachable h anything w₀) pid (fun res c' => Over x.id c' ∨ (res = .ok (true, x) ∧ Progressed x c.world c'.world) ∨
      (res = .ok (false, x) ∧ c'.world = c.world ∧ Quiescent x d c.world))
      (scheduleRunnableNodes h d (Canvas.getWorkflowNodeExecutions x.orgID x.id c.world.canvas) x d.nodeList) c' := by
  refine scheduleRunnableNodes_alone run run.rows (fun m _ => ?_) (fun c1 hc1 waits => ?_) ?_ hc'
  · rw [workflowNodeReadiness_perm run.rows run.inv.nodeIDs]
    exact run.inv.readiness_decides (publishable_of_valid accepted) m
  · exact Or.inr (Or.inr ⟨rfl, hc1, waits⟩)
  · intro m hm n hn id pending ready _ _ now c1 hc1 claimed
    have kept := claimedIn_executions x n.nodeID now c.world
    rw [← hc1] at kept
    refine .assume fun known => ?_
    obtain ⟨r', run'⟩ := run.again fresh kept.1 kept.2 known
    have unlinked := (run.inv.rows n hn).untouched pending
    have own : (Canvas.claimed now n).workflowExecutionID = x.id := (run.inv.owned n hn).2.trans run.same.id
    have hrow : Canvas.claimed now n ∈ r'.nodes := run'.mem_rowsOf.1 (List.mem_filter.2 ⟨claimed, decide_eq_true own⟩)
    refine (settleClaim_settles fresh ready run' hrow rfl ⟨unlinked.task, unlinked.webhook, unlinked.delay⟩
      (run.inv.type_eq hm hn ⟨rfl, rfl, rfl, rfl, rfl, rfl⟩ id.symm)).imp ?_
    rintro res c2 - (finished | ⟨rfl, progressed⟩)
    · exact Or.inl finished
    · refine Or.inr (Or.inl ⟨rfl, progressed.executions.trans kept.1, progressed.versions.trans kept.2, ?_⟩)
      have cost := charges_claim run n.nodeID now
      rw [← hc1] at cost
      exact progressed.charges.trans_le cost

/-- Finalizing an execution changes no node. -/
theorem finalizeExecutionIfComplete_nodes {R : State → Prop} (rows : List WorkflowNodeExecution) :
    RunsAlone R pid (fun _ c' => c'.world.canvas.nodes = c.world.canvas.nodes) (finalizeExecutionIfComplete d rows x) c := by
  have touch : RunsAlone R pid (fun _ c' => c'.world.canvas.nodes = c.world.canvas.nodes) (touchRunningExecution x) c := by
    refine alone_sys rfl fun now c1 hc1 => ?_
    refine alone_canvas hc1 rfl fun c2 hc2 => solo_ret ?_
    rw [hc2]
    rfl
  unfold finalizeExecutionIfComplete
  split
  · exact touch
  split
  · exact touch
  split
  · exact fun _ => rfl
  · refine alone_sys rfl fun now c1 hc1 => ?_
    refine alone_canvas hc1 rfl fun c2 hc2 => ?_
    have nodes : c2.world.canvas.nodes = c.world.canvas.nodes := by
      rw [hc2]
      simp only [CanvasOp.run, Canvas.finalizeWorkflowExecution]
      split <;> rfl
    split
    · refine alone_record rfl fun c3 hc3 => ?_
      rw [hc3, nodes]
    · exact solo_ret nodes

/-! ### The loop -/

/-- What is left when the loop returns. -/
theorem advanceLoop_settles (fresh : w₀.Fresh) (accepted : (validateWorkflowDefinition h.uuidParse d).valid = true) (rounds : Nat)
    (run : Underway x d r c) :
    RunsAlone (Reachable h anything w₀) pid (fun _ c' => Over x.id c' ∨ Quiescent x d c'.world ∨
      (charges x.id c'.world + rounds ≤ charges x.id c.world ∧ ∃ r', Underway x d r' c')) (advanceLoop h d rounds x) c := by
  induction rounds generalizing c r with
  | zero => exact solo_ret (Or.inr (Or.inr ⟨Nat.le_refl _, r, run⟩))
  | succ rounds ih =>
    have again : ∀ {c' : Config machine}, Progressed x c.world c'.world →
        RunsAlone (Reachable h anything w₀) pid (fun _ c' => Over x.id c' ∨ Quiescent x d c'.world ∨
          (charges x.id c'.world + (rounds + 1) ≤ charges x.id c.world ∧ ∃ r', Underway x d r' c')) (advanceLoop h d rounds x) c' := by
      intro c' progressed
      refine .assume fun known => ?_
      obtain ⟨r', run'⟩ := run.again fresh progressed.executions progressed.versions known
      refine (ih run').imp ?_
      rintro res c'' - (finished | quiescent | ⟨left, run''⟩)
      · exact Or.inl finished
      · exact Or.inr (Or.inl quiescent)
      · have := progressed.charges
        exact Or.inr (Or.inr ⟨by omega, run''⟩)
    unfold advanceLoop
    refine alone_canvas rfl rfl fun c1 hc1 => ?_
    have perm := run.rows
    refine Solo.bind (reconcileExternalNodes_settles fresh (run.of_world hc1) (fun n hn => perm.mem_iff.1 hn)
      ((perm.map _).nodup_iff.2 run.inv.ids) false) ?_ ?_
    · rintro ⟨changed, y⟩ c2 (finished | ⟨heq, hc2⟩ | ⟨heq, progressed⟩)
      · exact (over_alone fresh finished _).imp fun _ _ _ => Or.inl
      · cases heq
        have hc2 : c2.world = c.world := hc2.trans hc1
        dsimp only
        refine alone_canvas hc2 rfl fun c3 hc3 => ?_
        split
        · exact Solo.bind (failExecution_alone fresh (run.of_world hc3).lives _ _)
            (fun _ _ finished => solo_ret (Or.inl finished)) fun _ _ => Or.inl
        · refine Solo.bind (scheduleRunnableNodes_settles fresh accepted run hc3) ?_ ?_
          · rintro ⟨progressed, y⟩ c4 (finished | ⟨heq, progressed⟩ | ⟨heq, hc4, quiescent⟩)
            · exact (over_alone fresh finished _).imp fun _ _ _ => Or.inl
            · cases heq
              exact again progressed
            · cases heq
              refine (finalizeExecutionIfComplete_nodes _).imp fun _ c5 _ nodes => Or.inr (Or.inl (quiescent.of_nodes ?_))
              rw [nodes, hc4]
          · rintro e c4 (finished | ⟨heq, -⟩ | ⟨heq, -⟩)
            · exact Or.inl finished
            · cases heq
            · cases heq
      · cases heq
        rw [hc1] at progressed
        exact again progressed
    · rintro e c2 (finished | ⟨heq, -⟩ | ⟨heq, -⟩)
      · exact Or.inl finished
      · cases heq
      · cases heq

end Rounds

/-! ### AdvanceExecution -/

/-- The tasks, webhooks and delays of the execution that are still to be executed. -/
def toExecute (executionID : UUID) (w : World) : Nat := (rowsOf executionID w).countP outstanding

theorem charges_le (executionID : UUID) (w : World) :
    charges executionID w ≤ (rowsOf executionID w).length + toExecute executionID w := by
  unfold charges toExecute
  rw [sum_charge]
  exact Nat.add_le_add_right List.countP_le_length _

/-- A pending row is not paid for yet. -/
theorem toExecute_lt {executionID : UUID} {w : World} {n : WorkflowNodeExecution} (hn : n ∈ rowsOf executionID w)
    (pending : n.status = .pending) (unlinked : Unlinked n) : toExecute executionID w < charges executionID w := by
  have left : unsettled w n = true := by
    unfold unsettled
    rw [agrees_unlinked unlinked.task unlinked.webhook, pending]
    rfl
  unfold charges toExecute
  rw [sum_charge]
  have := List.countP_pos_iff.2 ⟨n, hn, left⟩
  omega

section Runs
variable {h : Host} {w : World} {s : State} {x : WorkflowExecution} {v : WorkflowVersion}

/-- Alone, AdvanceExecution ends the execution, leaves nothing that could run or be skipped, or stops after three nodes that
    wait for something outside. -/
theorem advanceExecution_settles (fresh : w.Fresh) (reach : Reachable h anything w s) (hx : x ∈ s.config.world.canvas.executions)
    (live : x.status.terminal = false) (hv : v ∈ s.config.world.canvas.versions) (pins : v.id = x.workflowVersionID)
    (accepted : (validateWorkflowDefinition h.uuidParse v.definition).valid = true) {pid : Nat} :
    RunsAlone (Reachable h anything w) pid (fun _ c => Over x.id c ∨ Quiescent x v.definition c.world ∨
      toExecute x.id c.world + 3 ≤ toExecute x.id s.config.world) (advanceExecution h x.orgID x.workflowID x.id) s.config := by
  refine advanceExecution_alone fresh reach hx live fun c d y r run same _ only => ?_
  obtain ⟨r₀, run₀⟩ := underway_of_mem fresh reach hx live hv pins
  have versions : s.config.world.canvas.versions <+: c.world.canvas.versions := by rw [only.versions]
  have pinned := definitionOf_same versions (run₀.same.symm.trans (same.trans run.same)) run₀.pinned
  rw [run.pinned] at pinned
  cases pinned
  have length : (rowsOf x.id s.config.world).length = v.definition.nodeList.length := by
    have keys := congrArg List.length run₀.inv.keys
    rw [List.length_map, List.length_map, (runOf_eq_some.1 run₀.stored).2] at keys
    exact keys
  -- marking the execution running pays for nothing
  have start : charges x.id c.world ≤ charges x.id s.config.world := by
    refine And.left (charges_update (p := fun _ => false) (f := fun n => n) (.of_eq only.tasks only.hooks) ?_ (fun _ => rfl) ?_)
    · rw [Table.update_of_not fun _ _ => rfl, only.nodes]
    · rintro n - chosen
      cases chosen
  have budget := charges_le x.id s.config.world
  refine (advanceLoop_settles fresh accepted _ run).imp ?_
  rintro res c' - (finished | quiescent | ⟨left, r', run'⟩)
  · rw [same.id] at finished
    exact Or.inl finished
  · unfold Quiescent at quiescent
    rw [same.id, same.orgID] at quiescent
    exact Or.inr (Or.inl quiescent)
  · rw [same.id] at left
    by_cases few : toExecute x.id c'.world + 3 ≤ toExecute x.id s.config.world
    · exact Or.inr (Or.inr few)
    · refine Or.inr (Or.inl fun m hm pending => ?_)
      obtain ⟨n, found, pending⟩ := Option.map_eq_some_iff.1 pending
      have run' := run'.of_same same.symm
      have hn := (stateOf_eq_some ((run'.rows.map _).nodup_iff.2 run'.inv.nodeIDs)).1 found
      have hn := run'.rows.mem_iff.1 hn.1
      have unpaid := toExecute_lt (run'.mem_rowsOf.2 hn) pending ((run'.inv.rows n hn).untouched pending)
      omega

end Runs

/-- A trigger, and four tasks behind it. -/
def wideDefinition : WorkflowDefinition where
  nodes := some [
    ⟨"start", .trigger, "", some []⟩,
    ⟨"a", .task, "", some [("queue", .str "jobs")]⟩,
    ⟨"b", .task, "", some [("queue", .str "jobs")]⟩,
    ⟨"c", .task, "", some [("queue", .str "jobs")]⟩,
    ⟨"d", .task, "", some [("queue", .str "jobs")]⟩]
  edges := some [
    ⟨"e1", "start", "a", .empty⟩,
    ⟨"e2", "start", "b", .empty⟩,
    ⟨"e3", "start", "c", .empty⟩,
    ⟨"e4", "start", "d", .empty⟩]

def wideWorld : World :=
  sampleWorld [{ sampleWorkflow with definition := wideDefinition }] [{ sampleVersion with definition := wideDefinition }]

end Windylane
