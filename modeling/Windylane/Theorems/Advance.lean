import Windylane.Theorems.Executions

/-! The workflow service keeps to its discipline, function by function. Each lemma takes what its caller knows of
    the execution for good, and says what is known of the execution it answers. -/

namespace Windylane

open Conc Script Prog Discipline

-- the conditions on texts are not decided here
seal trimSpace

/-- The answer is a row of an execution of which `P` holds. -/
def Yields {α : Type} (view : α → WorkflowExecution) (d : WorkflowDefinition) (P : Run → Prop) (r : Except Err α)
    (c : Config machine) : Prop :=
  ∀ a, r = .ok a → Knows (view a) d P c

section Steps
variable {strict : Prop} {pid : Nat} {c : Config machine} {α : Type} {Q : Except Err α → Config machine → Prop}

theorem wp_tick {K : Config machine → Prop} (hK : (executionRules strict).Lasting pid K) (hc : K c) {o : SysOp}
    {f : o.Resp → Script α}
    (h : ∀ a c', ServiceInv strict c' → K c' → wp (executionTerms strict pid) (f a) Q c') :
    wp (executionTerms strict pid) (Script.sys o >>= f) Q c := by
  refine wp_call_lasting hK hc (fun _ _ _ => allowed_sys o) fun c' env _ _ _ hi hc => ?_
  have := h (o.run env) _ hi hc
  simpa using this

/-- Programs that only dispatch. -/
abbrev Footprint.dispatching (create : Task → Prop) (deliver : WebhookDelivery → Prop) : Footprint :=
  ⟨False, False, False, False, False, False, create, deliver, fun _ => True, fun _ => True⟩

theorem CanvasOp.runs_of_within {f : Footprint} {o : CanvasOp} (ho : o.within f) (runs : ¬ f.runs) : o.runs = false := by
  cases o with
  | insertWorkflowExecution | claimWorkflowNode | updateWorkflowNodeExecution | updateWorkflowExecution
  | finalizeWorkflowExecution | cancelWorkflowExecution => exact absurd ho runs
  | _ => rfl

/-- A call within the tables of another service changes no execution. -/
theorem within_allowed {f : Footprint} {o : Op} (ho : o.within f) (runs : ¬ f.runs)
    (tasks : ∀ t, f.create t → Promise strict c (.task (.create t)))
    (posts : ∀ d, f.deliver d → Promise strict c (.hook (.createWebhookDelivery d))) :
    (executionRules strict).may pid c o ∧ Promise strict c o := by
  cases o with
  | canvas o => exact allowed_canvas (CanvasOp.quiet_step (CanvasOp.runs_of_within ho runs))
  | sys o => exact allowed_sys o
  | broker | worker => exact allowed_other (fun _ => rfl) fun _ _ hd => hd.elim
  | task o =>
    refine ⟨may_frame fun _ => rfl, ?_⟩
    cases o with
    | create t => exact tasks t ho
    | _ => exact fun _ _ _ hd => hd.elim
  | hook o =>
    refine ⟨may_frame fun _ => rfl, ?_⟩
    cases o with
    | createWebhookDelivery d => exact posts d ho
    | _ => exact fun _ _ _ hd => hd.elim

theorem recordCancelled_wp {K : Config machine → Prop} (hK : (executionRules strict).Lasting pid K) (hc : K c)
    (nodes : List WorkflowNodeExecution) :
    wp (executionTerms strict pid) (recordCancelled nodes) (fun _ c' => K c') c := by
  induction nodes generalizing c with
  | nil => exact fun _ hr _ => hK.stable hr hc
  | cons node rest ih =>
    unfold recordCancelled
    split
    · exact wp_tick hK hc fun _ _ _ hc => ih hc
    · exact ih hc

theorem updateNode_wp {K : Config machine → Prop} (hK : (executionRules strict).Lasting pid K) (hc : K c)
    {node : WorkflowNodeExecution} {expected : WorkflowNodeExecutionStatus}
    (step : ∀ c', ServiceInv strict c' → K c' →
      CanvasStep strict (Done c'.world) c'.world.canvas
        (Canvas.updateWorkflowNodeExecution node expected c'.world.canvas).2) :
    wp (executionTerms strict pid) (updateNode node expected) (fun _ c' => K c') c := by
  refine wp_perform hK hc (fun c' hi hc => allowed_canvas (step c' hi hc)) (fun _ _ _ hc => hc) ?_
  intro c' env updated hi hc' _ hi' hc _
  have ended : ∀ {c'}, K c' → wp (executionTerms strict pid) (.ret updated) (fun _ c' => K c') c' :=
    fun hc _ hr _ => hK.stable hr hc
  simp only
  split
  · split
    all_goals first
      | exact wp_tick hK hc fun _ _ _ hc => ended hc
      | exact ended hc
  · exact ended hc

end Steps

section Walk
variable {strict : Prop} {pid : Nat} {c : Config machine} {d : WorkflowDefinition} {P : Run → Prop}
  (hP : Persists P)

section
include hP

theorem wp_yield {α : Type} {view : α → WorkflowExecution} {a : α} (h : Knows (view a) d P c) :
    wp (executionTerms strict pid) (.ret a) (Yields view d P) c := by
  rintro c' hr - _ ⟨⟩
  exact (knows_lasts hP).stable hr h

theorem failExecution_wp {x : WorkflowExecution} (h : Knows x d P c) (code message : String) :
    wp (executionTerms strict pid) (failExecution x code message) (Yields id d P) c := by
  have hK : (executionRules strict).Lasting pid (Knows x d P) := knows_lasts hP
  refine wp_tick hK h fun now c' hi h => ?_
  refine wp_perform hK h (fun c' hi h => ?_) (fun _ _ _ _ _ he => by cases he) ?_
  · obtain ⟨r, hr, same, pinned, -⟩ := h.inv hi
    exact allowed_canvas (finalizeWorkflowExecution_fail hr pinned hi.canvas rfl rfl (by decide))
  intro c' env updated hi h _ hi' h' _
  have ended : ∀ {c'}, Knows x d P c' → wp (executionTerms strict pid)
      (.ret { x with status := .failed, errorCode := code, errorMessage := message, completedAt := some now, updatedAt := now })
      (Yields id d P) c' :=
    fun h => wp_yield hP (h.same ⟨rfl, rfl, rfl, rfl, rfl, rfl, rfl, rfl, rfl⟩ rfl)
  simp only
  split
  · refine wp_tick hK h' fun _ c' hi h => ?_
    refine wp_attempt hK h (fun _ _ _ => allowed_read rfl) fun c' env hi h _ hi' h' => ?_
    split
    · exact wp_seq lawful hi' (recordCancelled_wp hK h' _) (fun _ _ _ h => ended h) fun _ _ _ _ _ he => by cases he
    · exact ended h'
  · exact ended h'

end

/-! ### Claimed nodes -/

/-- The process holds the claim of the node `m`, as the row `node`, to execute it. -/
structure Claimed (d : WorkflowDefinition) (strict : Prop) (m : WorkflowNode) (node : WorkflowNodeExecution) (r : Run) :
    Prop where
  member : m ∈ d.nodeList
  nodeID : m.id = node.nodeID
  row : HasRow node r
  task : node.queueTaskID = none
  webhook : node.webhookDeliveryID = none
  output : Sound node.output
  runnable : strict → Runnable d r.nodes m

theorem Claimed.settles {m : WorkflowNode} {node node' : WorkflowNodeExecution} {r : Run}
    {done : WorkflowNodeExecution → Prop} (h : Claimed d strict m node r) (same : SameNode node node')
    (status : node'.status = .queued ∨ node'.status = .running ∨ node'.status = .succeeded ∨ node'.status = .failed)
    (links : Linked node') (output : Sound node'.output)
    (result : node'.status = .succeeded → m.type = .condition → Evaluated r.execution.input m node'.output)
    (work : node'.status = .succeeded → done node') : Settles ⟨d, strict, done⟩ r m node' .running where
  member := h.member
  nodeID := h.nodeID.trans same.nodeID.symm
  row := by
    obtain ⟨n, hn, hs⟩ := h.row
    exact ⟨n, hn, hs.trans same⟩
  expected := Or.inr rfl
  status := status
  links := links
  output := output
  runnable := h.runnable
  result := result
  work := work

/-- A row of the execution can be stored when it settles its node. -/
theorem Knows.settle {x : WorkflowExecution} {node : WorkflowNodeExecution}
    {expected : WorkflowNodeExecutionStatus} (h : Knows x d P c) (inv : ServiceInv strict c)
    (settles : ∀ r, RunInv ⟨d, strict, Done c.world⟩ r → SameExecution x r.execution → P r →
      ∃ m, Settles ⟨d, strict, Done c.world⟩ r m node expected) :
    CanvasStep strict (Done c.world) c.world.canvas
      (Canvas.updateWorkflowNodeExecution node expected c.world.canvas).2 := by
  obtain ⟨r, hr, same, pinned, run, hP⟩ := h.inv inv
  obtain ⟨m, ok⟩ := settles r run same hP
  obtain ⟨n, hn, hs⟩ := ok.row
  have exec : node.workflowExecutionID = x.id := by
    rw [hs.workflowExecutionID, (run.owned n hn).2, runOf_id hr]
  exact updateWorkflowNodeExecution_settle hr pinned exec ok

section
variable {x : WorkflowExecution} {m : WorkflowNode} {node : WorkflowNodeExecution}
  (claimed : ∀ r, P r → Claimed d strict m node r)
include hP claimed

theorem settleClaimed_wp {node' : WorkflowNodeExecution} (h : Knows x d P c) (same : SameNode node node')
    (status : node'.status = .queued ∨ node'.status = .running ∨ node'.status = .succeeded ∨ node'.status = .failed)
    (links : m.type = node'.nodeType → Linked node') (output : Sound x.input → Sound node.output → Sound node'.output)
    (result : node'.status = .succeeded → m.type = .condition → Evaluated x.input m node'.output)
    (inner : node'.status = .succeeded → m.type ≠ .task ∧ m.type ≠ .webhook) :
    wp (executionTerms strict pid) (updateNode node' .running) (fun _ c' => Knows x d P c') c := by
  refine updateNode_wp (knows_lasts hP) h fun c' hi h => h.settle hi fun r run exec hr => ?_
  have held := claimed r hr
  obtain ⟨n, hn, hs⟩ := held.row
  have type := run.type_eq held.member hn (hs.trans same) (held.nodeID.trans same.nodeID.symm)
  have sound := output (exec.input ▸ run.input) held.output
  refine ⟨m, held.settles same status (links type) sound (fun hs hm => exec.input ▸ result hs hm) fun hs => ?_⟩
  exact ⟨fun ht => absurd (type.trans ht) (inner hs).1, fun ht => absurd (type.trans ht) (inner hs).2⟩

theorem failClaimedNode_wp {node' : WorkflowNodeExecution} (h : Knows x d P c) (same : SameNode node node')
    (links : Linked node') (output : node'.output = node.output) (code message : String) :
    wp (executionTerms strict pid) (failClaimedNode x node' code message) (Yields id d P) c := by
  refine wp_tick (knows_lasts hP) h fun now c' hi h => ?_
  refine wp_seq lawful hi (settleClaimed_wp hP claimed h ⟨same.id, same.orgID, same.workflowExecutionID, same.nodeID,
    same.nodeType, same.createdAt⟩ (by simp) (fun _ => ⟨links.task, links.webhook⟩) (fun _ hs => output ▸ hs) (fun hs => by cases hs)
    fun hs => by cases hs) (fun _ c' hi h => ?_) fun _ _ _ _ _ he => by cases he
  exact failExecution_wp hP h code message

omit hP in
/-- The node that is dispatched has an active incoming edge. -/
theorem Knows.active (h : Knows x d P c) (hs : strict) (type : m.type ≠ .trigger) :
    ActiveIncoming c.world x.id m.id := by
  obtain ⟨r, hr, -, pinned, hP⟩ := h
  rcases (claimed r hP).runnable hs with trigger | ⟨-, -, active⟩
  · exact absurd trigger type
  · exact ⟨r, d, hr, pinned, active⟩

theorem dispatchTask_wp (h : Knows x d P c) (type : m.type = .task) (host : Host) :
    wp (executionTerms strict pid) (dispatchWorkflowTask host x.orgID x.id m.id m.config x.input)
      (fun _ c' => Knows x d P c') c := by
  have calls : (dispatchWorkflowTask host x.orgID x.id m.id m.config x.input).Calls
      (Op.within (.dispatching (fun t => t.idempotencyKey = workflowTaskKey x.id m.id) NewEvent)) :=
    dispatchWorkflowTask_calls (fun _ hd => hd) (fun _ => trivial) host _ _ _ _ _ fun _ ht _ => ht
  refine wp_calls_lasting (knows_lasts hP) (fun o ho c' hi h => ?_) h calls
  refine within_allowed ho id (fun t ht hs executionID nodeID hd => ?_) fun d hd _ _ _ hx => absurd hx.1 hd.eventType
  obtain ⟨rfl, rfl⟩ := workflowTaskKey_injective (ht.symm.trans hd)
  exact h.active claimed hs (by simp [type])

theorem dispatchWebhook_wp (h : Knows x d P c) (type : m.type = .webhook) (host : Host) :
    wp (executionTerms strict pid) (dispatchWorkflowWebhook host x m x.input) (fun _ c' => Knows x d P c') c := by
  have calls : (dispatchWorkflowWebhook host x m x.input).Calls
      (Op.within (.dispatching (fun _ => False) (NodeDelivery x.id m.id))) :=
    dispatchWorkflowWebhook_calls host x m x.input fun _ hd => hd
  refine wp_calls_lasting (knows_lasts hP) (fun o ho c' hi h => ?_) h calls
  refine within_allowed ho id (fun _ ht => ht.elim) fun delivery hd hs executionID nodeID hx => ?_
  obtain ⟨-, -, -, host', eventID, now, x', input, hid, payload⟩ := hd
  obtain ⟨-, members, payload', hE, hn⟩ := hx
  rw [payload] at payload'
  obtain ⟨rfl, rfl⟩ := workflowWebhookPayload_names (RawMessage.json.inj payload') hE hn
  rw [hid]
  exact h.active claimed hs (by simp [type])

theorem executeClaimedNode_wp (h : Knows x d P c) (host : Host) :
    wp (executionTerms strict pid) (executeClaimedNode host x m node) (Yields id d P) c := by
  have hK : (executionRules strict).Lasting pid (Knows x d P) := knows_lasts hP
  obtain ⟨r, hr⟩ : ∃ r, P r := by
    obtain ⟨r, -, -, -, hr⟩ := h
    exact ⟨r, hr⟩
  obtain ⟨-, -, -, task, webhook, -, -⟩ := claimed r hr
  have bare : Linked { node with input := x.input } := ⟨fun ht => absurd task ht, fun hw => absurd webhook hw⟩
  have failed : ∀ {c' : Config machine} (code message : String), Knows x d P c' →
      wp (executionTerms strict pid) (failClaimedNode x { node with input := x.input } code message) (Yields id d P) c' := by
    intro c' code message h
    refine failClaimedNode_wp hP claimed h ?_ bare rfl code message
    exact ⟨rfl, rfl, rfl, rfl, rfl, rfl⟩
  have settled : ∀ {c' : Config machine} (node' : WorkflowNodeExecution), ServiceInv strict c' → Knows x d P c' →
      SameNode node node' → node'.status = .queued ∨ node'.status = .succeeded →
      (m.type = node'.nodeType → Linked node') → (Sound x.input → Sound node.output → Sound node'.output) →
      (node'.status = .succeeded → m.type = .condition → Evaluated x.input m node'.output) →
      (node'.status = .succeeded → m.type ≠ .task ∧ m.type ≠ .webhook) →
      wp (executionTerms strict pid) (updateNode node' .running >>= fun _ => .ret x) (Yields id d P) c' := by
    intro c' node' hi h same status links output result inner
    exact wp_seq lawful hi (settleClaimed_wp hP claimed h same (by tauto) links output result inner)
      (fun _ _ _ h => wp_yield hP h) fun _ _ _ _ _ he => by cases he
  refine wp_tick hK h fun now c' hi h => ?_
  simp only
  split
  · rename_i type
    refine settled _ hi h ?_ (Or.inr rfl) (fun _ => ⟨bare.task, bare.webhook⟩) (fun hx _ => hx) ?_ ?_
    · exact ⟨rfl, rfl, rfl, rfl, rfl, rfl⟩
    · exact fun _ hm => by cases type.symm.trans hm
    · exact fun _ => by simp [type]
  · rename_i type
    split
    · exact failed _ _ h
    · rename_i config hconfig
      split
      · exact failed _ _ h
      · rename_i result heval
        refine settled _ hi h ?_ (Or.inr rfl) (fun _ => ⟨bare.task, bare.webhook⟩)
          (fun _ _ => Or.inr rfl) ?_ ?_
        · exact ⟨rfl, rfl, rfl, rfl, rfl, rfl⟩
        · exact fun _ _ => ⟨config, result, hconfig, heval, rfl⟩
        · exact fun _ => by simp [type]
  · split
    · exact failed _ _ h
    · refine settled _ hi h ?_ (Or.inl rfl) (fun _ => ⟨bare.task, bare.webhook⟩) (fun _ hn => hn) ?_ ?_
      · exact ⟨rfl, rfl, rfl, rfl, rfl, rfl⟩
      · exact fun hs => by cases hs
      · exact fun hs => by cases hs
  · rename_i type
    refine wp_seq lawful hi (dispatchTask_wp hP claimed h type host) (fun result c' hi h => ?_) ?_
    · split
      · exact failed _ _ h
      · refine settled _ hi h ?_ (Or.inl rfl) (fun hm => ⟨fun _ => hm.symm.trans type, bare.webhook⟩) (fun _ hn => hn) ?_ ?_
        · exact ⟨rfl, rfl, rfl, rfl, rfl, rfl⟩
        · exact fun hs => by cases hs
        · exact fun hs => by cases hs
    · exact fun _ _ _ _ _ he => by cases he
  · rename_i type
    refine wp_seq lawful hi (dispatchWebhook_wp hP claimed h type host) (fun result c' hi h => ?_) ?_
    · split
      · exact failed _ _ h
      · refine settled _ hi h ?_ (Or.inl rfl) (fun hm => ⟨bare.task, fun _ => hm.symm.trans type⟩) (fun _ hn => hn) ?_ ?_
        · exact ⟨rfl, rfl, rfl, rfl, rfl, rfl⟩
        · exact fun hs => by cases hs
        · exact fun hs => by cases hs
    · exact fun _ _ _ _ _ he => by cases he
  · exact failed _ _ h

end

/-! ### Reconciling -/

theorem getByID_found {env : Env} {orgID id : UUID} {w : World} {task : Task}
    (ok : (Op.exec env (.task (.getByID orgID id)) w).1 = .ok task) :
    task ∈ w.tasks ∧ task.id = id ∧ (Op.exec env (.task (.getByID orgID id)) w).2 = w := by
  have run := Op.exec_ok ok
  rw [run] at ok ⊢
  simp only [Op.run, TaskOp.run, Tasks.getByID] at ok
  split at ok
  · rename_i found
    cases ok
    have := List.find?_some found
    simp only [Bool.and_eq_true, decide_eq_true_eq] at this
    exact ⟨List.mem_of_find?_eq_some found, this.1.2, rfl⟩
  · cases ok

theorem getWebhookDelivery_found {env : Env} {orgID id : UUID} {w : World} {delivery : WebhookDelivery}
    (ok : (Op.exec env (.hook (.getWebhookDelivery orgID id)) w).1 = .ok delivery) :
    delivery ∈ w.hooks.deliveries ∧ delivery.id = id ∧
      (Op.exec env (.hook (.getWebhookDelivery orgID id)) w).2 = w := by
  have run := Op.exec_ok ok
  rw [run] at ok ⊢
  simp only [Op.run, HookOp.run, Webhooks.getWebhookDelivery] at ok
  split at ok
  · rename_i found
    cases ok
    have := List.find?_some found
    simp only [Bool.and_eq_true, decide_eq_true_eq] at this
    exact ⟨List.mem_of_find?_eq_some found, this.2, rfl⟩
  · cases ok

theorem node?_eq_some {m : WorkflowNode} {id : String} (h : d.node? id = some m) : m ∈ d.nodeList ∧ m.id = id :=
  ⟨List.mem_reverse.1 (List.mem_of_find?_eq_some h), by simpa using List.find?_some h⟩

/-- `node` is what was observed of the open node `row`. -/
structure Observed (row node : WorkflowNodeExecution) : Prop where
  same : SameNode row node
  task : node.queueTaskID = row.queueTaskID
  webhook : node.webhookDeliveryID = row.webhookDeliveryID
  output : Sound row.output → Sound node.output
  status : node.status = .queued ∨ node.status = .running ∨ node.status = .succeeded ∨ node.status = .failed

theorem mirrorTask_observed (row : WorkflowNodeExecution) (task : Task) (now : Time) :
    Observed row (mirrorTask row task now) := by
  unfold mirrorTask
  cases task.status <;> exact ⟨⟨rfl, rfl, rfl, rfl, rfl, rfl⟩, rfl, rfl, by simp [Sound, RawMessage.valid], by simp⟩

theorem mirrorTask_succeeded {row : WorkflowNodeExecution} {task : Task} {now : Time}
    (h : (mirrorTask row task now).status = .succeeded) : task.status = .completed := by
  unfold mirrorTask at h
  cases hs : task.status with
  | completed => rfl
  | _ => simp [hs] at h

theorem mirrorDelivery_observed (row : WorkflowNodeExecution) (delivery : WebhookDelivery) (now : Time) :
    Observed row (mirrorDelivery row delivery now) := by
  unfold mirrorDelivery
  cases delivery.status <;> exact ⟨⟨rfl, rfl, rfl, rfl, rfl, rfl⟩, rfl, rfl, by simp [Sound, RawMessage.valid], by simp⟩

theorem mirrorDelivery_succeeded {row : WorkflowNodeExecution} {delivery : WebhookDelivery} {now : Time}
    (h : (mirrorDelivery row delivery now).status = .succeeded) : delivery.status = .delivered := by
  unfold mirrorDelivery at h
  cases hs : delivery.status with
  | delivered => rfl
  | _ => simp [hs] at h

theorem resumeDelay_observed (host : Host) {row : WorkflowNodeExecution} (opened : row.status = .queued ∨ row.status = .running)
    (availableAt now : Time) : Observed row (resumeDelay host row availableAt now) := by
  unfold resumeDelay
  split
  · exact ⟨⟨rfl, rfl, rfl, rfl, rfl, rfl⟩, rfl, rfl, (fun _ => Or.inr rfl), by simp⟩
  · exact ⟨.refl _, rfl, rfl, (fun hs => hs), by tauto⟩

/-- What is known of a row that was read and is open. -/
structure Opened (d : WorkflowDefinition) (strict : Prop) (n : WorkflowNodeExecution) (r : Run) : Prop where
  row : HasRow n r
  ok : RowOK ⟨d, strict, fun _ => True⟩ r n

section
variable {x : WorkflowExecution} {row : WorkflowNodeExecution} (known : ∀ r, P r → Opened d strict row r)
  (opened : row.status = .queued ∨ row.status = .running)
include hP known opened

theorem storeObserved_wp {node : WorkflowNodeExecution} (h : Knows x d P c)
    (done : node.status = .succeeded → Done c.world node) (observed : Observed row node) (engaged : Engaged row)
    (outer : node.status = .succeeded → row.nodeType ≠ .condition) (now : Time) :
    wp (executionTerms strict pid) (storeObserved row node now) (fun _ c' => Knows x d P c') c := by
  unfold storeObserved
  split
  · have hK : (executionRules strict).Lasting pid
        (fun c => Knows x d P c ∧ (node.status = .succeeded → Done c.world node)) :=
      (knows_lasts hP).and fun actor c o env inv may granted h hs => done_lasts node actor c o env inv may granted (h hs)
    refine wp_imp (fun _ _ _ h => h.1) (updateNode_wp hK ⟨h, done⟩ fun c' hi h => ?_)
    refine h.1.settle hi fun r run exec hr => ?_
    obtain ⟨⟨n, hn, hs⟩, ok⟩ := known r hr
    obtain ⟨m, hm, hid, type⟩ := run.node_of_row hn
    have nodeID : m.id = row.nodeID := hid.trans hs.nodeID.symm
    refine ⟨m, {
      member := hm
      nodeID := nodeID.trans observed.same.nodeID.symm
      row := ⟨n, hn, hs.trans ⟨observed.same.id, observed.same.orgID, observed.same.workflowExecutionID,
        observed.same.nodeID, observed.same.nodeType, observed.same.createdAt⟩⟩
      expected := opened
      status := observed.status
      links := ⟨fun ht => observed.same.nodeType.trans (ok.links.task (observed.task ▸ ht)),
        fun hw => observed.same.nodeType.trans (ok.links.webhook (observed.webhook ▸ hw))⟩
      output := observed.output ok.output
      runnable := fun strict => ok.engaged strict engaged m hm nodeID
      result := fun succeeded condition => ?_
      work := fun succeeded => ?_ }⟩
    · exact absurd (hs.nodeType.trans (type.symm.trans condition)) (outer succeeded)
    · exact ⟨(h.2 succeeded).task, (h.2 succeeded).webhook⟩
  · exact fun _ hr _ => (knows_lasts hP).stable hr h

omit opened in
/-- A stale claim that is recovered is of a node that is to run. -/
theorem recover_wp (running : row.status = .running) (htask : row.queueTaskID = none)
    (hdelivery : row.webhookDeliveryID = none) {m : WorkflowNode} (hm : d.node? row.nodeID = some m)
    (h : Knows x d P c) (host : Host) :
    wp (executionTerms strict pid)
      (do
        sys (.recovery x.id row.nodeID)
        let x ← executeClaimedNode host x m row
        pure (true, x)) (Yields Prod.snd d P) c := by
  obtain ⟨member, nodeID⟩ := node?_eq_some hm
  refine wp_perform (knows_lasts hP) h (fun _ _ _ => allowed_sys _) (fun _ _ _ _ _ he => by cases he) ?_
  intro c' env _ hi h granted hi' _ _
  have h : Knows x d (fun r => P r ∧ (strict → Runnable d r.nodes m)) c' := by
    obtain ⟨r, hr, same, pinned, hP⟩ := h
    refine ⟨r, hr, same, pinned, hP, fun hs => ?_⟩
    have ok := (known r hP).ok
    rcases ok.ready (by simp [running]) (by simp [running]) m member nodeID with runnable | skippable
    · exact runnable
    · exact absurd skippable (granted.2 hs _ _ rfl r d m hr pinned member nodeID)
  have h' : Knows x d (fun r => P r ∧ (strict → Runnable d r.nodes m))
      (c'.after pid env (.sys (.recovery x.id row.nodeID))) := by
    have world : (c'.after pid env (.sys (.recovery x.id row.nodeID))).world = c'.world :=
      congrArg Prod.snd (Op.exec_sys env _ _)
    unfold Knows
    rw [world]
    exact h
  refine wp_seq lawful hi' (executeClaimedNode_wp (hP.and (persists_runnable strict m)) (fun r hr => ?_) h' host) ?_ ?_
  · exact ⟨member, nodeID, (known r hr.1).row, htask, hdelivery, (known r hr.1).ok.output, hr.2⟩
  · exact fun y c' _ h => wp_yield hP ((h y rfl).imp fun _ hr => hr.1)
  · exact fun _ _ _ _ _ he => by cases he

theorem reconcileNode_wp (h : Knows x d P c) (host : Host) :
    wp (executionTerms strict pid) (reconcileNode host d x row) (Yields Prod.snd d P) c := by
  have hK : (executionRules strict).Lasting pid (Knows x d P) := knows_lasts hP
  have links : Linked row := by
    obtain ⟨r, -, -, -, hr⟩ := h
    exact (known r hr).ok.links
  have stored : ∀ {c' : Config machine} {node : WorkflowNodeExecution} (now : Time), ServiceInv strict c' → Knows x d P c' →
      (node.status = .succeeded → Done c'.world node) → Observed row node → Engaged row →
      (node.status = .succeeded → row.nodeType ≠ .condition) →
      wp (executionTerms strict pid) (storeObserved row node now >>= fun updated => .ret (updated, x))
        (Yields Prod.snd d P) c' := by
    intro c' node now hi h done observed engaged outer
    refine wp_seq lawful hi (storeObserved_wp hP known opened h done observed engaged outer now) ?_ ?_
    · exact fun updated _ _ h => wp_yield hP h
    · exact fun _ _ _ _ _ he => by cases he
  unfold reconcileNode
  refine wp_tick hK h fun now c' hi h => ?_
  split
  · rename_i taskID htask
    have type := links.task (by rw [htask]; simp)
    refine wp_attempt hK h (fun _ _ _ => allowed_other (fun _ => rfl) fun _ _ hd => hd.elim) ?_
    intro c' env hi h _ hi' h'
    split
    · exact wp_yield hP h'
    · exact fun _ _ _ _ he => by cases he
    · rename_i task answer
      obtain ⟨hm, hid, hw⟩ := getByID_found answer
      refine stored now hi' h' (fun hs => ?_) (mirrorTask_observed _ _ _) ?_ ?_
      · have same := mirrorTask_observed row task now
        refine ⟨fun _ => ⟨task, ?_, ?_, mirrorTask_succeeded hs⟩, fun hw => ?_⟩
        · rw [Config.after_world, hw]
          exact hm
        · rw [same.task, htask, hid]
        · rw [same.same.nodeType, type] at hw
          cases hw
      · exact Or.inr (Or.inr (Or.inr fun hu => by rw [hu.task] at htask; cases htask))
      · exact fun _ hc => by rw [type] at hc; cases hc
  · rename_i deliveryID _ hdelivery
    have type := links.webhook (by rw [hdelivery]; simp)
    refine wp_attempt hK h (fun _ _ _ => allowed_other (fun _ => rfl) fun _ _ hd => hd.elim) ?_
    intro c' env hi h _ hi' h'
    split
    · exact wp_yield hP h'
    · exact fun _ _ _ _ he => by cases he
    · rename_i delivery answer
      obtain ⟨hm, hid, hw⟩ := getWebhookDelivery_found answer
      refine stored now hi' h' (fun hs => ?_) (mirrorDelivery_observed _ _ _) ?_ ?_
      · have same := mirrorDelivery_observed row delivery now
        refine ⟨fun ht => ?_, fun _ => ⟨delivery, ?_, ?_, mirrorDelivery_succeeded hs⟩⟩
        · rw [same.same.nodeType, type] at ht
          cases ht
        · rw [Config.after_world, hw]
          exact hm
        · rw [same.webhook, hdelivery, hid]
      · exact Or.inr (Or.inr (Or.inr fun hu => by rw [hu.webhook] at hdelivery; cases hdelivery))
      · exact fun _ hc => by rw [type] at hc; cases hc
  · rename_i htask hdelivery
    split
    · rename_i availableAt hdelay
      obtain ⟨type, hat⟩ : row.nodeType = .delay ∧ row.availableAt = some availableAt := by
        split at hdelay
        · exact ⟨‹_›, hdelay⟩
        · cases hdelay
      have same := resumeDelay_observed host opened availableAt now
      refine stored now hi h (fun _ => ⟨fun ht => ?_, fun hw => ?_⟩) same ?_ ?_
      · rw [same.same.nodeType, type] at ht
        cases ht
      · rw [same.same.nodeType, type] at hw
        cases hw
      · exact Or.inr (Or.inr (Or.inr fun hu => by rw [hu.delay] at hat; cases hat))
      · exact fun _ hc => by rw [type] at hc; cases hc
    · split
      · rename_i running
        split
        · exact wp_yield hP h
        · split
          · exact fun _ _ _ _ he => by cases he
          · rename_i m hm
            exact recover_wp hP known running htask hdelivery hm h host
      · rename_i running
        have queued : row.status = .queued := by tauto
        refine stored now hi h (fun hs => ?_) ⟨.refl _, rfl, rfl, (fun hs => hs), Or.inl queued⟩ (Or.inl queued) fun hs => ?_
        · rw [queued] at hs
          cases hs
        · rw [queued] at hs
          cases hs

end

section
include hP

theorem reconcileExternalNodes_wp (host : Host) (nodes : List WorkflowNodeExecution)
    (known : ∀ n ∈ nodes, ∀ r, P r → Opened d strict n r) {x : WorkflowExecution} (h : Knows x d P c)
    (inv : ServiceInv strict c) (changed : Bool) :
    wp (executionTerms strict pid) (reconcileExternalNodes host d nodes changed x) (Yields Prod.snd d P) c := by
  induction nodes generalizing c x changed with
  | nil => exact wp_yield hP h
  | cons n rest ih =>
    have later : ∀ q ∈ rest, ∀ r, P r → Opened d strict q r := fun q hq => known q (List.mem_cons_of_mem _ hq)
    unfold reconcileExternalNodes
    split
    · rename_i opened
      refine wp_seq lawful inv (reconcileNode_wp hP (known n List.mem_cons_self) opened h host) ?_ ?_
      · rintro ⟨updated, y⟩ c' hi h
        exact ih later (h _ rfl) hi _
      · exact fun _ _ _ _ _ he => by cases he
    · exact ih later h inv _

/-! ### Scheduling -/

omit hP in
/-- A claim that is won is of a pending row of the node. -/
theorem claim_won {env : Env} {x : WorkflowExecution} {id : String} {now : Time} {claimed : WorkflowNodeExecution}
    (h : Knows x d P c) (inv : ServiceInv strict c)
    (won : (Op.exec env (.canvas (.claimWorkflowNode x.orgID x.id id now)) c.world).1 = .ok (some claimed)) :
    Knows x d (fun r => P r ∧ HasRow claimed r) c ∧ Unlinked claimed ∧ Sound claimed.output ∧ claimed.nodeID = id := by
  have run := Op.exec_ok won
  rw [run] at won
  simp only [Op.run, CanvasOp.run, Canvas.claimWorkflowNode, Except.ok.injEq] at won
  split at won
  · rename_i n found
    cases won
    have hn := List.find?_some found
    simp only [Bool.and_eq_true, decide_eq_true_eq] at hn
    obtain ⟨⟨⟨-, exec⟩, rfl⟩, pending⟩ := hn
    obtain ⟨r, hr, same, pinned, run, hP⟩ := h.inv inv
    have hn : n ∈ r.nodes := by
      rw [(runOf_eq_some.1 hr).2]
      exact List.mem_filter.2 ⟨List.mem_of_find?_eq_some found, by simpa using exec⟩
    have unlinked := (run.rows n hn).untouched pending
    exact ⟨⟨r, hr, same, pinned, hP, n, hn, rfl, rfl, rfl, rfl, rfl, rfl⟩,
      ⟨unlinked.task, unlinked.webhook, unlinked.delay⟩, (run.rows n hn).output, rfl⟩
  · cases won

theorem skipClaimed_wp {x : WorkflowExecution} {m : WorkflowNode} {claimed : WorkflowNodeExecution}
    (member : m ∈ d.nodeList) (nodeID : m.id = claimed.nodeID) (unlinked : Unlinked claimed)
    (output : Sound claimed.output) (known : ∀ r, P r → HasRow claimed r ∧ Skippable d r.nodes m) (h : Knows x d P c) (now : Time) :
    wp (executionTerms strict pid)
      (updateNode { claimed with status := .skipped, completedAt := some now, updatedAt := now } .running)
      (fun _ c' => Knows x d P c') c := by
  refine updateNode_wp (knows_lasts hP) h fun c' hi h => ?_
  obtain ⟨r, hr, same, pinned, run, hP⟩ := h.inv hi
  obtain ⟨⟨n, hn, hs⟩, skippable⟩ := known r hP
  refine updateWorkflowNodeExecution_skip hr pinned ?_ member nodeID ⟨n, hn, ?_⟩ rfl
    ⟨unlinked.task, unlinked.webhook, unlinked.delay⟩ output skippable
  · exact hs.workflowExecutionID.trans ((run.owned n hn).2.trans (runOf_id hr))
  · exact ⟨hs.id, hs.orgID, hs.workflowExecutionID, hs.nodeID, hs.nodeType, hs.createdAt⟩

theorem scheduleRunnableNodes_wp (host : Host) {nodes : List WorkflowNodeExecution}
    (read : ∀ r, P r → Read d strict nodes r) (rest : List WorkflowNode) (members : ∀ m ∈ rest, m ∈ d.nodeList)
    {x : WorkflowExecution} (h : Knows x d P c) :
    wp (executionTerms strict pid) (scheduleRunnableNodes host d nodes x rest) (Yields Prod.snd d P) c := by
  have hK : (executionRules strict).Lasting pid (Knows x d P) := knows_lasts hP
  induction rest generalizing c with
  | nil => exact wp_yield hP h
  | cons m rest ih =>
    have later : ∀ {c' : Config machine}, Knows x d P c' →
        wp (executionTerms strict pid) (scheduleRunnableNodes host d nodes x rest) (Yields Prod.snd d P) c' :=
      fun h => ih (fun q hq => members q (List.mem_cons_of_mem _ hq)) h
    have member := members m List.mem_cons_self
    unfold scheduleRunnableNodes
    split
    · split
      · exact fun _ _ _ _ he => by cases he
      · exact later h
      · rename_i ready decided hready
        have ready' : ∀ r, P r → (ready = .runnable → Runnable d r.nodes m) ∧ (ready = .shouldSkip → Skippable d r.nodes m) :=
          fun r hr => (read r hr).ready hready (fun he => decided he)
        refine wp_tick hK h fun now c' hi h => ?_
        have may : ∀ c' : Config machine, ServiceInv strict c' → Knows x d P c' → (executionRules strict).may pid c'
            (.canvas (.claimWorkflowNode x.orgID x.id m.id now)) ∧
            Promise strict c' (.canvas (.claimWorkflowNode x.orgID x.id m.id now)) := by
          rintro c' hi ⟨r, hr, same, pinned, hP⟩
          refine allowed_canvas (claimWorkflowNode_step hr pinned member ?_ _ _)
          cases ready with
          | waiting => exact absurd rfl decided
          | runnable => exact Or.inl ((ready' r hP).1 rfl)
          | shouldSkip => exact Or.inr ((ready' r hP).2 rfl)
        refine wp_perform hK h may (fun _ _ _ _ _ he => by cases he) fun c' env answer hi h granted hi' h' won => ?_
        cases answer with
        | none => exact later h'
        | some claimed =>
          obtain ⟨h, unlinked, output, nodeID⟩ := claim_won h hi won
          have hP' := hP.and (persists_row claimed)
          have h := knows_lasts hP' pid c' _ env hi (may c' hi (h.imp fun _ hr => hr.1)).1 granted h
          refine wp_tick (knows_lasts hP') h fun _ c' hi h => ?_
          split
          · rename_i skip
            refine wp_tick (knows_lasts hP') h fun now c' hi h => ?_
            refine wp_seq lawful hi (skipClaimed_wp hP' member nodeID.symm unlinked output (fun r hr => ?_) h now) ?_ ?_
            · exact ⟨hr.2, (ready' r hr.1).2 skip⟩
            · exact fun _ _ _ h => wp_yield hP (h.imp fun _ hr => hr.1)
            · exact fun _ _ _ _ _ he => by cases he
          · rename_i skip
            refine wp_seq lawful hi (executeClaimedNode_wp hP' (fun r hr => ?_) h host) ?_ ?_
            · refine ⟨member, nodeID.symm, hr.2, unlinked.task, unlinked.webhook, output, fun _ => (ready' r hr.1).1 ?_⟩
              cases ready with
              | waiting => exact absurd rfl decided
              | runnable => rfl
              | shouldSkip => exact absurd rfl skip
            · exact fun y _ _ h => wp_yield hP ((h y rfl).imp fun _ hr => hr.1)
            · exact fun _ _ _ _ _ he => by cases he
    · exact later h

/-! ### Finalizing -/

theorem touchRunningExecution_wp {x : WorkflowExecution} (h : Knows x d P c) :
    wp (executionTerms strict pid) (touchRunningExecution x) (fun _ _ => True) c := by
  refine wp_tick (knows_lasts hP) h fun now c' hi h => ?_
  refine wp_perform (knows_lasts hP) h (fun c' hi h => ?_) (fun _ _ _ _ => trivial) fun _ _ _ _ _ _ _ _ _ _ _ _ => trivial
  obtain ⟨r, hr, same, pinned, -⟩ := h
  exact allowed_canvas (updateWorkflowExecution_step hr pinned hi.canvas rfl rfl (by decide))

theorem finalizeExecutionIfComplete_wp {nodes : List WorkflowNodeExecution} (read : ∀ r, P r → Read d strict nodes r)
    {x : WorkflowExecution} (h : Knows x d P c) :
    wp (executionTerms strict pid) (finalizeExecutionIfComplete d nodes x) (fun _ _ => True) c := by
  have hK : (executionRules strict).Lasting pid (Knows x d P) := knows_lasts hP
  unfold finalizeExecutionIfComplete
  split
  · exact touchRunningExecution_wp hP h
  split
  · exact touchRunningExecution_wp hP h
  · rename_i all
    split
    · exact fun _ _ _ => trivial
    · refine wp_tick hK h fun now c' hi h => ?_
      refine wp_perform hK h (fun c' hi h => ?_) (fun _ _ _ _ => trivial) fun c' env updated hi h _ hi' h' _ => ?_
      · obtain ⟨r, hr, same, pinned, hP⟩ := h
        refine allowed_canvas (finalizeWorkflowExecution_finish hr pinned hi.canvas rfl rfl (by decide) ?_)
        refine (read r hP).resolved fun n hn => ?_
        simp only [List.any_eq_true, not_exists, not_and, Bool.not_eq_true, Bool.and_eq_false_iff, decide_eq_false_iff_not,
          not_not] at all
        exact all n hn
      · split
        · exact wp_call_lasting hK h' (fun _ _ _ => allowed_sys _) fun _ env _ _ _ _ _ => by
            cases (machine.exec env _ _).1 <;> exact fun _ _ _ => trivial
        · exact fun _ _ _ => trivial

end

/-! ### Advancing -/

theorem nodes_read (pid : Nat) {env : Env} {x : WorkflowExecution} {nodes : List WorkflowNodeExecution} (h : Knows x d P c)
    (inv : ServiceInv strict c)
    (ok : (Op.exec env (.canvas (.getWorkflowNodeExecutions x.orgID x.id)) c.world).1 = .ok nodes) :
    Knows x d (fun r => P r ∧ Read d strict nodes r)
      (c.after pid env (.canvas (.getWorkflowNodeExecutions x.orgID x.id))) := by
  have run := Op.exec_ok ok
  have world : (c.after pid env (.canvas (.getWorkflowNodeExecutions x.orgID x.id))).world = c.world :=
    congrArg Prod.snd run
  rw [run] at ok
  cases ok
  unfold Knows
  rw [world]
  exact h.read inv

theorem advanceLoop_wp (host : Host) (rounds : Nat) {x : WorkflowExecution} (h : Knows x d (fun _ => True) c) :
    wp (executionTerms strict pid) (advanceLoop host d rounds x) (fun _ _ => True) c := by
  induction rounds generalizing c x with
  | zero => exact fun _ _ _ => trivial
  | succ rounds ih =>
    refine wp_perform (knows_lasts persists_true) h (fun _ _ _ => allowed_read rfl) (fun _ _ _ _ => trivial) ?_
    intro c' env nodes hi h _ hi' _ ok
    have hP : Persists fun r => True ∧ Read d strict nodes r := persists_true.and (persists_read nodes)
    refine wp_seq lawful hi' (reconcileExternalNodes_wp hP host nodes ?_ (nodes_read pid h hi ok) hi' false) ?_ ?_
    · exact fun n hn r hr => ⟨hr.2.row hn, hr.2.rows n hn⟩
    · rintro ⟨changed, y⟩ c' hi h
      have h : Knows y d (fun _ => True) c' := (h _ rfl).imp fun _ _ => trivial
      simp only
      split
      · exact ih h
      · refine wp_perform (knows_lasts persists_true) h (fun _ _ _ => allowed_read rfl) (fun _ _ _ _ => trivial) ?_
        intro c' env nodes hi h _ hi' _ ok
        have hP : Persists fun r => True ∧ Read d strict nodes r := persists_true.and (persists_read nodes)
        have h := nodes_read pid h hi ok
        split
        · exact wp_seq lawful hi' (failExecution_wp hP h _ _) (fun _ _ _ _ _ _ _ => trivial) fun _ _ _ _ => trivial
        · refine wp_seq lawful hi' (scheduleRunnableNodes_wp hP host (fun r hr => hr.2) d.nodeList (fun m hm => hm) h) ?_ ?_
          · rintro ⟨progressed, z⟩ c' hi h
            simp only
            split
            · exact ih ((h _ rfl).imp fun _ _ => trivial)
            · exact finalizeExecutionIfComplete_wp hP (fun r hr => hr.2) (h _ rfl)
          · exact fun _ _ _ _ => trivial
    · exact fun _ _ _ _ => trivial

theorem markRunning_wp {x : WorkflowExecution} (h : Knows x d (fun _ => True) c) :
    wp (executionTerms strict pid) (markRunning x) (Yields id d fun _ => True) c := by
  have hK : (executionRules strict).Lasting pid (Knows x d fun _ => True) := knows_lasts persists_true
  unfold markRunning
  split
  · refine wp_tick hK h fun now c' hi h => ?_
    have ended : ∀ {c' : Config machine}, Knows x d (fun _ => True) c' → wp (executionTerms strict pid)
        (.ret { x with status := .running, startedAt := some now, updatedAt := now }) (Yields id d fun _ => True) c' :=
      fun h => wp_yield persists_true (h.same ⟨rfl, rfl, rfl, rfl, rfl, rfl, rfl, rfl, rfl⟩ rfl)
    refine wp_perform hK h (fun c' hi h => ?_) (fun _ _ _ _ _ he => by cases he) fun c' env updated hi h _ hi' h' _ => ?_
    · obtain ⟨r, hr, same, pinned, -⟩ := h
      exact allowed_canvas (updateWorkflowExecution_step hr pinned hi.canvas rfl rfl (by decide))
    · simp only
      split
      · exact wp_tick hK h' fun _ _ _ h => ended h
      · exact ended h'
  · exact wp_yield persists_true h

theorem execution_found (pid : Nat) {env : Env} {orgID workflowID executionID : UUID} {x : WorkflowExecution}
    (inv : ServiceInv strict c)
    (ok : (Op.exec env (.canvas (.getWorkflowExecution orgID workflowID executionID)) c.world).1 = .ok x) :
    ∃ d, Knows x d (fun _ => True) (c.after pid env (.canvas (.getWorkflowExecution orgID workflowID executionID))) := by
  have run := Op.exec_ok ok
  have world : (c.after pid env (.canvas (.getWorkflowExecution orgID workflowID executionID))).world = c.world :=
    congrArg Prod.snd run
  rw [run] at ok
  simp only [Op.run, CanvasOp.run, Canvas.getWorkflowExecution] at ok
  split at ok
  · rename_i found
    cases ok
    unfold Knows
    rw [world]
    exact knows_found inv (List.mem_of_find?_eq_some found)
  · cases ok

/-- The version that is read is the one the execution is pinned to. -/
theorem version_found {env : Env} {orgID workflowID : UUID} {x : WorkflowExecution} {v : WorkflowVersion}
    (h : Knows x d P c) (inv : ServiceInv strict c)
    (ok : (Op.exec env (.canvas (.getWorkflowExecutionVersion orgID workflowID x.workflowVersionID)) c.world).1 = .ok v) :
    v.definition = d := by
  rw [Op.exec_ok ok] at ok
  simp only [Op.run, CanvasOp.run, Canvas.getWorkflowExecutionVersion] at ok
  split at ok
  · rename_i found
    cases ok
    obtain ⟨r, hr, same, pinned, -⟩ := h
    have hid := List.find?_some found
    simp only [Bool.and_eq_true, decide_eq_true_eq] at hid
    unfold definitionOf at pinned
    rw [same.workflowVersionID, ← hid.2, Table.find?_key inv.canvas.versions (List.mem_of_find?_eq_some found)] at pinned
    exact Option.some.inj pinned
  · cases ok

theorem advanceExecution_wp (host : Host) (orgID workflowID executionID : UUID) :
    wp (executionTerms strict pid) (advanceExecution host orgID workflowID executionID) (fun _ _ => True) c := by
  refine wp_perform (lasting_const True) trivial (fun _ _ _ => allowed_read rfl) (fun _ _ _ _ => trivial) ?_
  intro c' env x hi _ _ hi' _ ok
  obtain ⟨d, h⟩ := execution_found pid hi ok
  simp only
  split
  · exact fun _ _ _ => trivial
  · refine wp_perform (knows_lasts persists_true) h (fun _ _ _ => allowed_read rfl) (fun _ _ _ _ => trivial) ?_
    intro c' env v hi h _ hi' h' ok
    obtain rfl := version_found h hi ok
    split
    · exact fun _ _ _ => trivial
    · refine wp_seq lawful hi' (markRunning_wp h') (fun y c' _ h => ?_) fun _ _ _ _ => trivial
      exact advanceLoop_wp host _ (h y rfl)

end Walk

end Windylane
