import Windylane.Theorems.Guarantees
import Windylane.Theorems.Provenance
import Windylane.Theorems.Rows

/-! The rows of executions and nodes in every state that is reached. A row is stored whole from a copy that may be old;
    what a process may store follows from what it read, and what it read says something about the tables for good. -/

namespace Windylane

open Conc Script Prog

section Reading
variable {strict : Prop} {done : WorkflowNodeExecution → Prop} {s s' : Canvas.Store}

/-- A node belongs to an execution. -/
theorem CanvasInv.run_of_node (inv : CanvasInv strict done s) {n : WorkflowNodeExecution} (hn : n ∈ s.nodes) :
    ∃ r d, runOf s n.workflowExecutionID = some r ∧ n ∈ r.nodes ∧ definitionOf s r.execution = some d ∧
      RunInv ⟨d, strict, done⟩ r := by
  obtain ⟨x, hx, hid⟩ := List.mem_map.1 (inv.owners _ (List.mem_map_of_mem hn))
  have hr := inv.runOf_of_mem hx
  rw [hid] at hr
  obtain ⟨d, pinned, run⟩ := inv.runs _ _ hr
  exact ⟨_, d, hr, List.mem_filter.2 ⟨hn, by simp⟩, pinned, run⟩

/-- The row that was read is still there, and moved on. -/
def Standing (s : Canvas.Store) (row : WorkflowNodeExecution) : Prop :=
  ∃ r n, runOf s row.workflowExecutionID = some r ∧ n ∈ r.nodes ∧ Moved row n

theorem CanvasInv.standing (inv : CanvasInv strict done s) {n : WorkflowNodeExecution} (hn : n ∈ s.nodes) : Standing s n := by
  obtain ⟨r, _, hr, hn, -⟩ := inv.run_of_node hn
  exact ⟨r, n, hr, hn, .refl n⟩

theorem Standing.step {row : WorkflowNodeExecution} (h : Standing s row) (step : CanvasStep strict done s s') :
    Standing s' row := by
  obtain ⟨r, n, hr, hn, moved⟩ := h
  obtain ⟨r', hr', rfl | ⟨d, -, run⟩⟩ := step.runOf hr
  · exact ⟨r', n, hr', hn, moved⟩
  · obtain ⟨n', hn', moved'⟩ := run.moves.mem hn
    exact ⟨r', n', hr', hn', moved.trans moved'⟩

/-- A row that ended and was read is the stored row. -/
theorem Standing.stored {c : Canvas.Store} {row : WorkflowNodeExecution} (stands : Standing c row)
    (ended : row.status.terminal = true) : row ∈ c.nodes := by
  obtain ⟨r, n, hr, hn, moved⟩ := stands
  rw [moved.terminal ended, (runOf_eq_some.1 hr).2] at hn
  exact (List.mem_filter.1 hn).1

/-- A node is known by its execution and its name in the definition, or its id. -/
theorem CanvasInv.node_unique (inv : CanvasInv strict done s) {n n' : WorkflowNodeExecution} (hn : n ∈ s.nodes)
    (hn' : n' ∈ s.nodes) (execution : n'.workflowExecutionID = n.workflowExecutionID)
    (key : n'.nodeID = n.nodeID ∨ n'.id = n.id) : n' = n := by
  obtain ⟨r, d, hr, hn, -, run⟩ := inv.run_of_node hn
  obtain ⟨r', d', hr', hn', -, -⟩ := inv.run_of_node hn'
  rw [execution, hr] at hr'
  cases hr'
  rcases key with nodeID | id
  · exact Table.eq_of_key run.nodeIDs hn' hn nodeID
  · exact Table.eq_of_key run.ids hn' hn id

/-- The rows that a call answers are stored. -/
theorem readRows_stored {env : Env} {o : Op} {w : World} {answer : machine.Answer o} (answered : (o.exec env w).1 = answer)
    {row : WorkflowNodeExecution} (read : row ∈ readRows ⟨o, answer⟩) : row ∈ (o.exec env w).2.canvas.nodes := by
  unfold readRows at read
  split at read
  · rename_i heq
    cases heq
    have run := Op.exec_ok answered
    rw [run] at answered ⊢
    cases answered
    exact (List.mem_filter.1 (Table.mem_of_mem_firstBy read)).1
  · rename_i heq
    cases heq
    have run := Op.exec_ok answered
    rw [run] at answered ⊢
    simp only [Op.run, CanvasOp.run, Canvas.claimWorkflowNode, Except.ok.injEq] at answered ⊢
    split at answered
    · rename_i found
      cases answered
      rw [List.mem_singleton.1 read]
      exact Table.mem_update.2 ⟨_, List.mem_of_find?_eq_some found, if_pos (List.find?_some found)⟩
    · cases answered
  · cases read

/-- The answers are as the programs of the workflow service take them. -/
theorem workflow_answers {w : World} (inv : CanvasInv strict done w.canvas) (env : Env) (o : Op) :
    WorkflowAnswer o (o.exec env w).1 := by
  generalize answered : (o.exec env w).1 = answer
  unfold WorkflowAnswer
  split
  · rw [Op.exec_sys] at answered
    exact ⟨_, answered.symm⟩
  · rw [Op.exec_ok answered] at answered
    simp only [Op.run, CanvasOp.run, Canvas.getWorkflowExecution] at answered
    split at answered
    · rename_i found
      cases answered
      have named := List.find?_some found
      simp only [Bool.and_eq_true, decide_eq_true_eq] at named
      exact named.2
    · cases answered
  · rw [Op.exec_ok answered] at answered
    cases answered
    intro n hn
    have named := (List.mem_filter.1 (Table.mem_of_mem_firstBy hn)).2
    simpa using named
  · rw [Op.exec_ok answered] at answered
    simp only [Op.run, CanvasOp.run, Canvas.claimWorkflowNode, Except.ok.injEq] at answered
    split at answered
    · rename_i n found
      cases answered
      have named := List.find?_some found
      simp only [Bool.and_eq_true, decide_eq_true_eq] at named
      obtain ⟨r, d, -, hn, -, run⟩ := inv.run_of_node (List.mem_of_find?_eq_some found)
      have unlinked := (run.rows n hn).untouched named.2
      exact ⟨named.1.1.1, named.1.1.2, named.1.2, rfl, unlinked.task, unlinked.webhook, unlinked.delay⟩
    · cases answered
  · rw [Op.exec_ok answered] at answered
    simp only [Op.run, HookOp.run, Webhooks.getWebhookDelivery] at answered
    split at answered
    · rename_i found
      cases answered
      have named := List.find?_some found
      simp only [Bool.and_eq_true, decide_eq_true_eq] at named
      exact named.2
    · cases answered
  · trivial

end Reading

theorem SameExecution.symm {x y : WorkflowExecution} (h : SameExecution x y) : SameExecution y x :=
  ⟨h.id.symm, h.orgID.symm, h.workflowID.symm, h.workflowVersionID.symm, h.workflowVersion.symm, h.input.symm,
    h.idempotencyKey.symm, h.requestFingerprint.symm, h.createdAt.symm⟩

section Runs
variable {h : Host} {w : World} {s : State} {allow : State → Action machine Request → Prop} {pid : Nat} {o : Op}

theorem canvas_inv (fresh : w.Fresh) (reach : Reachable h allow w s) :
    CanvasInv False (Done s.config.world) s.config.world.canvas :=
  (executions_run False fresh (fun hs => hs.elim) reach).1.canvas

theorem canvas_step (fresh : w.Fresh) (reach : Reachable h allow w s) (calling : s.Calling pid o) (env : Env) :
    CanvasStep False (Done s.config.world) s.config.world.canvas (o.exec env s.config.world).2.canvas := by
  obtain ⟨request, k, hp⟩ := calling
  exact canvas_next fresh reach (System.next_step hp env)

/-- Every call rests on the past of the process that makes it. -/
theorem calling_rightful (fresh : w.Fresh) (reach : Reachable h allow w s) (calling : s.Calling pid o) :
    Rightful h (history pid s.config.trace) o := by
  obtain ⟨request, k, hp⟩ := calling
  have along := reach.along (A := WorkflowAnswer) (P := fun _ => Rightful h) (Q := fun _ _ _ => True)
    (fun s pid env o reach _ _ => workflow_answers (canvas_inv fresh reach) env o)
    (fun request => Along.imp (body_walk request) fun _ _ _ => trivial) hp
  exact along.1

/-- Every answer that a process got is as the programs take it. -/
theorem answers_run (fresh : w.Fresh) (reach : Reachable h allow w s) (pid : Nat) :
    ∀ c ∈ history pid s.config.trace, WorkflowAnswer c.1 c.2 := by
  refine (reach.recalls (W := fun _ => True) (K := fun _ c => WorkflowAnswer c.1 c.2) trivial ?_).2 pid
  intro s pid env o reach _ _ _ _
  exact ⟨trivial, workflow_answers (canvas_inv fresh reach) env o, fun _ known => known⟩

/-! ### What was read, for good -/

/-- What an answer says about the tables of executions, for good. -/
def Recalled (s : Canvas.Store) : machine.Exchange → Prop
  | ⟨.canvas (.getWorkflowExecution _ _ _), .ok y⟩ => ∃ r, runOf s y.id = some r ∧ SameExecution y r.execution
  | ⟨.canvas (.getWorkflowExecutionVersion _ _ id), .ok v⟩ => v ∈ s.versions ∧ v.id = id
  | ⟨.canvas (.finalizeWorkflowExecution x _ _), .ok _⟩ => ∃ r, runOf s x.id = some r ∧ r.execution.status.terminal = true
  | c => ∀ row ∈ readRows c, Standing s row

theorem Recalled.step {strict : Prop} {done : WorkflowNodeExecution → Prop} {s s' : Canvas.Store}
    (inv : CanvasInv strict done s) (step : CanvasStep strict done s s') {c : machine.Exchange} (recalled : Recalled s c) :
    Recalled s' c := by
  unfold Recalled at recalled ⊢
  split at recalled
  · obtain ⟨r, hr, same⟩ := recalled
    obtain ⟨r', hr', rfl | ⟨d, -, run⟩⟩ := step.runOf hr
    · exact ⟨r', hr', same⟩
    · exact ⟨r', hr', same.trans run.same⟩
  · exact ⟨step.versions.subset recalled.1, recalled.2⟩
  · obtain ⟨r, hr, ended⟩ := recalled
    obtain ⟨d, pinned, run⟩ := inv.runs _ _ hr
    obtain ⟨r', hr', rfl | ⟨d', pinned', moved⟩⟩ := step.runOf hr
    · exact ⟨r', hr', ended⟩
    · rw [pinned] at pinned'
      cases pinned'
      rw [moved.frozen run ended] at hr'
      exact ⟨r, hr', ended⟩
  · exact fun row read => (recalled row read).step step

/-- An execution is not live after it was finalized. -/
theorem finalized_terminal {strict : Prop} {done : WorkflowNodeExecution → Prop} {s : Canvas.Store}
    (inv : CanvasInv strict done s) {x : WorkflowExecution} {closes : Bool} (ends : x.status.terminal = true) {r : Run}
    (hr : runOf s x.id = some r) (org : r.execution.orgID = x.orgID)
    (step : CanvasStep strict done s (Canvas.finalizeWorkflowExecution x [.pending, .running] closes s).2) :
    ∃ r', runOf (Canvas.finalizeWorkflowExecution x [.pending, .running] closes s).2 x.id = some r' ∧
      r'.execution.status.terminal = true := by
  have settled : ∀ status : WorkflowExecutionStatus, status ∉ [WorkflowExecutionStatus.pending, .running] →
      status.terminal = true := by
    intro status out
    cases status with
    | pending | running => simp at out
    | succeeded | failed | cancelled => rfl
  obtain ⟨r', hr', -⟩ := step.runOf hr
  refine ⟨r', hr', ?_⟩
  have stored := runOf_mem hr'
  have hid := runOf_id hr'
  unfold Canvas.finalizeWorkflowExecution at stored
  simp only at stored
  split at stored
  · rename_i none
    have same : r'.execution = r.execution :=
      Table.eq_of_key inv.ids stored (runOf_mem hr) (hid.trans (runOf_id hr).symm)
    rw [same]
    refine settled _ fun live => ?_
    have out := List.any_eq_false.1 (Bool.not_eq_true' _ ▸ none) r.execution (runOf_mem hr)
    simp only [Bool.and_eq_true, decide_eq_true_eq] at out
    exact out ⟨⟨org, runOf_id hr⟩, live⟩
  · obtain ⟨q, hq, changed⟩ := Table.mem_update.1 stored
    have same : q = r.execution := by
      refine Table.eq_of_key inv.ids hq (runOf_mem hr) ?_
      rw [runOf_id hr, ← hid, ← changed]
      split <;> rfl
    subst same
    rw [← changed]
    split
    · exact ends
    · rename_i out
      refine settled _ fun live => out ?_
      simp only [Bool.and_eq_true, decide_eq_true_eq]
      exact ⟨⟨org, runOf_id hr⟩, live⟩

/-- A copy is of an execution that was read. -/
theorem Copy.source {past : List machine.Exchange} {x : WorkflowExecution} (copy : Copy past x) :
    ∃ y, ReadExecution past y ∧ SameExecution y x := by
  induction copy with
  | read read _ => exact ⟨_, read, .refl _⟩
  | started read _ _ => exact ⟨_, read, rfl, rfl, rfl, rfl, rfl, rfl, rfl, rfl, rfl⟩
  | failed _ _ ih =>
    obtain ⟨y, read, same⟩ := ih
    exact ⟨y, read, same.trans ⟨rfl, rfl, rfl, rfl, rfl, rfl, rfl, rfl, rfl⟩⟩

theorem ReadExecution.stands {past : List machine.Exchange} {c : Canvas.Store} {y : WorkflowExecution}
    (read : ReadExecution past y) (recalled : ∀ e ∈ past, Recalled c e) :
    ∃ r, runOf c y.id = some r ∧ SameExecution y r.execution := by
  obtain ⟨_, _, _, read⟩ := read
  exact recalled _ read

theorem Copy.stands {past : List machine.Exchange} {c : Canvas.Store} {x : WorkflowExecution} (copy : Copy past x)
    (recalled : ∀ e ∈ past, Recalled c e) : ∃ r, runOf c x.id = some r ∧ SameExecution x r.execution := by
  obtain ⟨y, read, same⟩ := copy.source
  obtain ⟨r, hr, same'⟩ := read.stands recalled
  exact ⟨r, same.id ▸ hr, same.symm.trans same'⟩

theorem recalled_answer (fresh : w.Fresh) (reach : Reachable h allow w s) (calling : s.Calling pid o) (env : Env)
    (recalled : ∀ c ∈ history pid s.config.trace, Recalled s.config.world.canvas c) :
    Recalled (o.exec env s.config.world).2.canvas ⟨o, (o.exec env s.config.world).1⟩ := by
  have inv := canvas_inv fresh reach
  have step := canvas_step fresh reach calling env
  have rightful := calling_rightful fresh reach calling
  generalize answered : (o.exec env s.config.world).1 = answer
  unfold Recalled
  split
  · rename_i heq
    cases heq
    have run := Op.exec_ok answered
    rw [run] at answered ⊢
    simp only [Op.run, CanvasOp.run, Canvas.getWorkflowExecution] at answered ⊢
    split at answered
    · rename_i found
      cases answered
      exact ⟨_, inv.runOf_of_mem (List.mem_of_find?_eq_some found), .refl _⟩
    · cases answered
  · rename_i heq
    cases heq
    have run := Op.exec_ok answered
    rw [run] at answered ⊢
    simp only [Op.run, CanvasOp.run, Canvas.getWorkflowExecutionVersion] at answered ⊢
    split at answered
    · rename_i found
      cases answered
      have named := List.find?_some found
      simp only [Bool.and_eq_true, decide_eq_true_eq] at named
      exact ⟨List.mem_of_find?_eq_some found, named.2⟩
    · cases answered
  · rename_i heq
    cases heq
    have run := Op.exec_ok answered
    rw [run] at step ⊢
    obtain ⟨rfl, y, now, copy, made⟩ := rightful
    obtain ⟨r, hr, same⟩ := copy.stands recalled
    rcases made with ⟨output, rfl, rfl⟩ | ⟨code, message, rfl, rfl, -⟩
    · exact finalized_terminal inv rfl hr same.orgID step
    · exact finalized_terminal inv rfl hr same.orgID step
  · exact fun row read => (step.inv inv).standing (readRows_stored answered read)

/-- Every answer that a process got says what it said. -/
theorem recalled_run (fresh : w.Fresh) (reach : Reachable h allow w s) (pid : Nat) :
    ∀ c ∈ history pid s.config.trace, Recalled s.config.world.canvas c := by
  refine (reach.recalls (W := fun _ => True) (K := fun (config : Config machine) c => Recalled config.world.canvas c) trivial ?_).2 pid
  intro s pid env o reach _ calling _ recalled
  refine ⟨trivial, recalled_answer fresh reach calling env (recalled pid), fun c => ?_⟩
  exact Recalled.step (canvas_inv fresh reach) (canvas_step fresh reach calling env)

/-- The definition of an execution. -/
def Pinned (c : Canvas.Store) (executionID : UUID) (d : WorkflowDefinition) : Prop :=
  ∃ r, runOf c executionID = some r ∧ definitionOf c r.execution = some d

theorem Pinned.step {strict : Prop} {done : WorkflowNodeExecution → Prop} {c c' : Canvas.Store} {executionID : UUID}
    {d : WorkflowDefinition} (pinned : Pinned c executionID d) (step : CanvasStep strict done c c') : Pinned c' executionID d := by
  obtain ⟨r, hr, hd⟩ := pinned
  obtain ⟨r', hr', rfl | ⟨_, -, run⟩⟩ := step.runOf hr
  · exact ⟨r', hr', definitionOf_same step.versions (.refl _) hd⟩
  · exact ⟨r', hr', definitionOf_same step.versions run.same hd⟩

theorem Pinned.unique {c : Canvas.Store} {executionID : UUID} {d : WorkflowDefinition} (pinned : Pinned c executionID d)
    {r : Run} (hr : runOf c executionID = some r) {d' : WorkflowDefinition} (hd : definitionOf c r.execution = some d') :
    d = d' := by
  obtain ⟨r', hr', hd'⟩ := pinned
  rw [hr] at hr'
  cases hr'
  rw [hd] at hd'
  exact (Option.some.inj hd').symm

/-- The definition that a process works with is the one its execution is pinned to. -/
theorem Plans.pinned {past : List machine.Exchange} {c : Canvas.Store} {x : WorkflowExecution} {d : WorkflowDefinition}
    (plans : Plans past x d) (versions : (c.versions.map (·.id)).Nodup) (recalled : ∀ e ∈ past, Recalled c e) :
    ∃ r, runOf c x.id = some r ∧ SameExecution x r.execution ∧ definitionOf c r.execution = some d := by
  obtain ⟨orgID, workflowID, executionID, y, v, read, -, same, version, rfl⟩ := plans
  obtain ⟨r, hr, same'⟩ := recalled _ read
  obtain ⟨hv, hid⟩ := recalled _ version
  refine ⟨r, same.id ▸ hr, same.symm.trans same', ?_⟩
  unfold definitionOf
  rw [same'.workflowVersionID, ← hid, Table.find?_key versions hv]
  rfl

theorem Saw.stands {past : List machine.Exchange} {c : Canvas.Store} {row : WorkflowNodeExecution} (saw : Saw past row)
    (recalled : ∀ e ∈ past, Recalled c e) : Standing c row := by
  obtain ⟨e, he, read⟩ := saw
  have recalled := recalled e he
  unfold Recalled at recalled
  split at recalled
  · cases read
  · cases read
  · cases read
  · exact recalled row read

/-- What is observed of a row: it is still open, or it ended at `now`. -/
inductive Becomes (row : WorkflowNodeExecution) (now : Time) : WorkflowNodeExecution → Prop
  | opened (attempt : Int) (status : WorkflowNodeExecutionStatus) (live : status = .queued ∨ status = .running) :
      Becomes row now { row with attempt := attempt, status := status }
  | succeeded (attempt : Int) (output : RawMessage) : Becomes row now
      { row with attempt := attempt, status := .succeeded, output := output, completedAt := some now }
  | failed (attempt : Int) (code message : String) : Becomes row now
      { row with
        attempt := attempt
        status := .failed
        errorCode := code
        errorMessage := message
        completedAt := some now }

theorem mirrorTask_becomes (row : WorkflowNodeExecution) (task : Task) (now : Time) :
    Becomes row now (mirrorTask row task now) := by
  unfold mirrorTask
  cases task.status with
  | pending => exact .opened _ _ (Or.inl rfl)
  | processing => exact .opened _ _ (Or.inr rfl)
  | completed => exact .succeeded _ _
  | failed | deadLetter | cancelled => exact .failed _ _ _

theorem mirrorDelivery_becomes (row : WorkflowNodeExecution) (delivery : WebhookDelivery) (now : Time) :
    Becomes row now (mirrorDelivery row delivery now) := by
  unfold mirrorDelivery
  cases delivery.status with
  | pending | retrying => exact .opened _ _ (Or.inl rfl)
  | delivering => exact .opened _ _ (Or.inr rfl)
  | delivered => exact .succeeded _ _
  | failed => exact .failed _ _ _

theorem resumeDelay_becomes {row : WorkflowNodeExecution} (opened : row.status = .queued ∨ row.status = .running)
    (availableAt now : Time) : Becomes row now (resumeDelay h row availableAt now) := by
  unfold resumeDelay
  split
  · exact .succeeded _ _
  · exact .opened row.attempt row.status opened

theorem Observation.becomes {past : List machine.Exchange} {row node : WorkflowNodeExecution} {now : Time}
    (observed : Observation h past row now node) (opened : row.status = .queued ∨ row.status = .running) :
    Becomes row now node := by
  cases observed with
  | task => exact mirrorTask_becomes _ _ _
  | delivery => exact mirrorDelivery_becomes _ _ _
  | delay => exact resumeDelay_becomes opened _ _
  | same _ _ queued _ => exact .opened row.attempt row.status opened

/-- What is stored over a node is made of a row of it. -/
theorem NodeWrite.source {past : List machine.Exchange} {node : WorkflowNodeExecution}
    {expected : WorkflowNodeExecutionStatus} (write : NodeWrite h past node expected) :
    ∃ base, Saw past base ∧ SameNode base node ∧ node.startedAt = base.startedAt := by
  cases write with
  | skip held _ => exact ⟨_, held.saw, ⟨rfl, rfl, rfl, rfl, rfl, rfl⟩, rfl⟩
  | execute held _ _ executed =>
    refine ⟨_, held.saw, ?_⟩
    cases executed <;> exact ⟨⟨rfl, rfl, rfl, rfl, rfl, rfl⟩, rfl⟩
  | fail held _ _ => exact ⟨_, held.saw, ⟨rfl, rfl, rfl, rfl, rfl, rfl⟩, rfl⟩
  | observe saw opened _ observed _ =>
    refine ⟨_, saw, ?_⟩
    cases observed.becomes opened <;> exact ⟨⟨rfl, rfl, rfl, rfl, rfl, rfl⟩, rfl⟩

/-- The row that a node is stored over is the row of the node. -/
theorem Standing.same {strict : Prop} {done : WorkflowNodeExecution → Prop} {c : Canvas.Store}
    (inv : CanvasInv strict done c) {row n : WorkflowNodeExecution} (stands : Standing c row) (hn : n ∈ c.nodes)
    (execution : n.workflowExecutionID = row.workflowExecutionID) (hid : n.id = row.id) : Moved row n := by
  obtain ⟨r, n', hr, hn', moved⟩ := stands
  obtain ⟨r', d, hr', hn, -, run⟩ := inv.run_of_node hn
  rw [execution, hr] at hr'
  cases hr'
  have same : n' = n := Table.eq_of_key run.ids hn' hn (moved.same.id.trans hid.symm)
  exact same ▸ moved

/-- A row has the type of the node that a process executes for it. -/
theorem Assigned.type {strict : Prop} {done : WorkflowNodeExecution → Prop} {past : List machine.Exchange} {c : Canvas.Store}
    {x : WorkflowExecution} {d : WorkflowDefinition} {m : WorkflowNode} {base : WorkflowNodeExecution}
    (assigned : Assigned past x d m base) (inv : CanvasInv strict done c) (stands : Standing c base)
    (recalled : ∀ e ∈ past, Recalled c e) : base.nodeType = m.type := by
  obtain ⟨r, hr, -, pinned⟩ := assigned.plan.pinned inv.versions recalled
  obtain ⟨r', n, hr', hn, moved⟩ := stands
  rw [← assigned.executionID, hr] at hr'
  cases hr'
  obtain ⟨d', pinned', run⟩ := inv.runs _ _ hr
  rw [pinned] at pinned'
  cases pinned'
  exact (run.type_eq assigned.member hn moved.same.symm assigned.nodeID).symm

/-! ### What is written to a node -/

theorem openNode_live {orgID executionID : UUID} {n : WorkflowNodeExecution} (opened : Canvas.openNode orgID executionID n = true) :
    n.status.terminal = false := by
  unfold Canvas.openNode at opened
  cases status : n.status with
  | pending | queued | running => rfl
  | succeeded | failed | skipped | cancelled => simp [status] at opened

/-- A row of a node, and what a call makes of it. -/
inductive NodeMade (h : Host) (past : List machine.Exchange) (o : Op) (n : WorkflowNodeExecution) :
    WorkflowNodeExecution → Prop
  | claim {orgID : UUID} {now : Time} (called : o = .canvas (.claimWorkflowNode orgID n.workflowExecutionID n.nodeID now))
      (pending : n.status = .pending) (ready : ClaimReady past orgID n.workflowExecutionID n.nodeID now) :
      NodeMade h past o n (Canvas.claimed now n)
  | store {node : WorkflowNodeExecution} (called : o = .canvas (.updateWorkflowNodeExecution node n.status))
      (same : SameNode n node) (write : NodeWrite h past node n.status) : NodeMade h past o n node
  | close {code message : String} {now : Time} (live : n.status.terminal = false) :
      NodeMade h past o n (Canvas.closed code message now n)

theorem node_changed (fresh : w.Fresh) (reach : Reachable h allow w s) {c : CanvasOp} (calling : s.Calling pid (.canvas c))
    {n n' : WorkflowNodeExecution} (hn : n ∈ s.config.world.canvas.nodes) (changed : NodeChange c n n') :
    NodeMade h (history pid s.config.trace) (.canvas c) n n' := by
  have rightful := calling_rightful fresh reach calling
  cases changed with
  | claim org execution node pending =>
    subst execution node
    exact .claim rfl pending rightful
  | store org execution hid status =>
    obtain ⟨base, saw, same, -⟩ := rightful.source
    have moved := (saw.stands (recalled_run fresh reach pid)).same (canvas_inv fresh reach) hn
      (execution.trans same.workflowExecutionID) (hid.trans same.id)
    have same := moved.same.symm.trans same
    rw [overwrite_eq same]
    subst status
    exact .store rfl same rightful
  | close opened => exact .close (openNode_live opened)
  | cancel opened => exact .close (openNode_live opened)

/-- Where the nodes come from that are stored after a call. -/
theorem node_written (fresh : w.Fresh) (reach : Reachable h allow w s) (calling : s.Calling pid o) (env : Env)
    {n' : WorkflowNodeExecution} (hn' : n' ∈ (o.exec env s.config.world).2.canvas.nodes) :
    n' ∈ s.config.world.canvas.nodes ∨ NewNode n' ∨
      ∃ n ∈ s.config.world.canvas.nodes, NodeMade h (history pid s.config.trace) o n n' := by
  rcases Op.exec_canvas env o s.config.world with same | ⟨c, rfl, runs⟩
  · exact Or.inl (same ▸ hn')
  rw [runs] at hn'
  obtain ⟨added, nodes, writes⟩ := c.writes s.config.world.canvas
  rcases writes.nodes.source hn' with inserted | ⟨n, hn, rfl | changed⟩
  · cases writes.inserts with
    | none => cases inserted
    | execution x _ _ => exact Or.inr (Or.inl ((calling_rightful fresh reach calling).nodes n' inserted))
  · exact Or.inl hn
  · exact Or.inr (Or.inr ⟨n, hn, node_changed fresh reach calling hn changed⟩)

/-- A node stays in the table. -/
theorem node_remade (fresh : w.Fresh) (reach : Reachable h allow w s) (calling : s.Calling pid o) (env : Env)
    {n : WorkflowNodeExecution} (hn : n ∈ s.config.world.canvas.nodes) :
    ∃ n' ∈ (o.exec env s.config.world).2.canvas.nodes, n' = n ∨ NodeMade h (history pid s.config.trace) o n n' := by
  rcases Op.exec_canvas env o s.config.world with same | ⟨c, rfl, runs⟩
  · exact ⟨n, same ▸ hn, Or.inl rfl⟩
  rw [runs]
  obtain ⟨added, nodes, writes⟩ := c.writes s.config.world.canvas
  obtain ⟨n', hn', rfl | changed⟩ := writes.nodes.kept hn
  · exact ⟨n', hn', Or.inl rfl⟩
  · exact ⟨n', hn', Or.inr (node_changed fresh reach calling hn changed)⟩

/-- Only open rows are stored over. -/
theorem NodeWrite.live {past : List machine.Exchange} {node : WorkflowNodeExecution} {expected : WorkflowNodeExecutionStatus}
    (write : NodeWrite h past node expected) : expected.terminal = false := by
  cases write with
  | skip _ _ => rfl
  | execute _ _ _ _ => rfl
  | fail _ _ _ => rfl
  | observe _ opened _ _ _ =>
    rcases opened with queued | running
    · rw [queued]
      rfl
    · rw [running]
      rfl

theorem NodeMade.live {past : List machine.Exchange} {n n' : WorkflowNodeExecution} (made : NodeMade h past o n n') :
    n.status.terminal = false := by
  cases made with
  | claim _ pending _ =>
    rw [pending]
    rfl
  | store _ _ write => exact write.live
  | close live => exact live

/-- A node that ended stays as it is. -/
theorem node_stays (fresh : w.Fresh) (reach : Reachable h allow w s) (calling : s.Calling pid o) (env : Env)
    {n : WorkflowNodeExecution} (hn : n ∈ s.config.world.canvas.nodes) (ended : n.status.terminal = true) :
    n ∈ (o.exec env s.config.world).2.canvas.nodes := by
  obtain ⟨n', hn', rfl | made⟩ := node_remade fresh reach calling env hn
  · exact hn'
  · rw [made.live] at ended
    cases ended

/-! ### What holds of every row -/

/-- Something that holds of new rows, and that nothing a process may write breaks. -/
structure RowLaw (h : Host) (allow : State → Action machine Request → Prop) (w : World)
    (P : Config machine → WorkflowNodeExecution → Prop) : Prop where
  lasts : ∀ s pid env o n, Reachable h allow w s → allow s (.step pid env) → s.Calling pid o → P s.config n →
    P (s.config.after pid env o) n
  new : ∀ c n, NewNode n → P c n
  claim : ∀ s pid n orgID now, Reachable h allow w s → n ∈ s.config.world.canvas.nodes → n.status = .pending →
    ClaimReady (history pid s.config.trace) orgID n.workflowExecutionID n.nodeID now → P s.config n →
    P s.config (Canvas.claimed now n)
  store : ∀ s pid node expected, Reachable h allow w s → NodeWrite h (history pid s.config.trace) node expected →
    (∀ row, Saw (history pid s.config.trace) row → P s.config row) → P s.config node
  close : ∀ c n code message now, n.status.terminal = false → P c n → P c (Canvas.closed code message now n)

theorem rows_run {P : Config machine → WorkflowNodeExecution → Prop} (law : RowLaw h allow w P) (fresh : w.Fresh)
    (reach : Reachable h allow w s) : (∀ n ∈ s.config.world.canvas.nodes, P s.config n) ∧
      ∀ pid row, Saw (history pid s.config.trace) row → P s.config row := by
  have run := reach.recalls (W := fun c : Config machine => ∀ n ∈ c.world.canvas.nodes, P c n)
    (K := fun c e => ∀ row ∈ readRows e, P c row) (fun n hn => by simp [fresh.nodes] at hn) ?_
  · exact ⟨run.1, fun pid row ⟨c, hc, read⟩ => run.2 pid c hc row read⟩
  intro s pid env o reach allowed calling rows seen
  have saw : ∀ row, Saw (history pid s.config.trace) row → P s.config row :=
    fun row ⟨c, hc, read⟩ => seen pid c hc row read
  have stored : ∀ n ∈ (o.exec env s.config.world).2.canvas.nodes, P s.config n := by
    intro n' hn'
    rcases node_written fresh reach calling env hn' with hn | new | ⟨n, hn, made⟩
    · exact rows n' hn
    · exact law.new _ _ new
    · cases made with
      | claim _ pending ready => exact law.claim s pid n _ _ reach hn pending ready (rows n hn)
      | store _ _ write => exact law.store s pid _ _ reach write saw
      | close live => exact law.close _ n _ _ _ live (rows n hn)
  have after : ∀ n ∈ (s.config.after pid env o).world.canvas.nodes, P (s.config.after pid env o) n :=
    fun n hn => law.lasts s pid env o n reach allowed calling (stored n hn)
  exact ⟨after, fun row read => after row (readRows_stored rfl read), fun c known row read =>
    law.lasts s pid env o row reach allowed calling (known row read)⟩

/-! ### What is written to an execution -/

/-- A live row of an execution, and what a process may make of it. -/
inductive ExecutionWrite (past : List machine.Exchange) (row : WorkflowExecution) : WorkflowExecution → Prop
  | started {y : WorkflowExecution} {now : Time} (read : ReadExecution past y) (pending : y.status = .pending)
      (id : row.id = y.id) (found : row.status = .pending) : ExecutionWrite past row (Canvas.revise (startedAs y now) row)
  | touched {y : WorkflowExecution} {now : Time} (copy : Copy past y) (id : row.id = y.id) (found : row.status = .running) :
      ExecutionWrite past row (Canvas.revise (touchedAs y now) row)
  | succeeded {y : WorkflowExecution} {output : RawMessage} {now : Time} (copy : Copy past y) (id : row.id = y.id) :
      ExecutionWrite past row (Canvas.revise (succeededAs y output now) row)
  | failed {y : WorkflowExecution} {code message : String} {now : Time} (copy : Copy past y) (id : row.id = y.id)
      (blames : Blames past y.id code message) : ExecutionWrite past row (Canvas.revise (failedAs y code message now) row)
  | cancelled (now : Time) : ExecutionWrite past row (Canvas.cancelled now row)

theorem ExecutionWrite.id {past : List machine.Exchange} {row x' : WorkflowExecution} (write : ExecutionWrite past row x') :
    x'.id = row.id := by
  cases write <;> rfl

/-- Where the executions come from that are stored after a call. -/
theorem execution_written (fresh : w.Fresh) (reach : Reachable h allow w s) (calling : s.Calling pid o) (env : Env)
    {x' : WorkflowExecution} (hx' : x' ∈ (o.exec env s.config.world).2.canvas.executions) :
    x' ∈ s.config.world.canvas.executions ∨
      (∃ nodes, NewExecution x' nodes ∧ ∀ y ∈ s.config.world.canvas.executions, y.id ≠ x'.id) ∨
      ∃ row ∈ s.config.world.canvas.executions, row.status.terminal = false ∧
        ExecutionWrite (history pid s.config.trace) row x' := by
  have rightful := calling_rightful fresh reach calling
  rcases Op.exec_canvas env o s.config.world with same | ⟨c, rfl, runs⟩
  · exact Or.inl (same ▸ hx')
  rw [runs] at hx'
  obtain ⟨added, nodes, writes⟩ := c.writes s.config.world.canvas
  rcases writes.executions.source hx' with inserted | ⟨row, hrow, rfl | changed⟩
  · cases writes.inserts with
    | none => cases inserted
    | execution x _ new =>
      rw [List.mem_singleton.1 inserted]
      exact Or.inr (Or.inl ⟨nodes, rightful, new⟩)
  · exact Or.inl hrow
  · refine Or.inr (Or.inr ⟨row, hrow, ?_⟩)
    cases changed with
    | update org id status =>
      obtain ⟨y, now, ⟨read, pending, rfl, rfl⟩ | ⟨copy, rfl, rfl⟩⟩ := rightful
      · have found := List.mem_singleton.1 status
        exact ⟨by rw [found]; rfl, .started read pending id found⟩
      · have found := List.mem_singleton.1 status
        exact ⟨by rw [found]; rfl, .touched copy id found⟩
    | finalize org id status =>
      obtain ⟨rfl, y, now, copy, made⟩ := rightful
      have live : row.status.terminal = false := by
        rcases List.mem_cons.1 status with pending | running
        · rw [pending]
          rfl
        · rw [List.mem_singleton.1 running]
          rfl
      rcases made with ⟨output, rfl, rfl⟩ | ⟨code, message, rfl, rfl, blames⟩
      · exact ⟨live, .succeeded copy id⟩
      · exact ⟨live, .failed copy id blames⟩
    | cancel org id live =>
      obtain ⟨y, hy, same, live⟩ := live
      rw [Table.eq_of_key (canvas_inv fresh reach).ids hrow hy same.symm]
      exact ⟨live, .cancelled _⟩

/-- A copy of an execution that is still live was not failed. -/
theorem Copy.of_live {strict : Prop} {done : WorkflowNodeExecution → Prop} {past : List machine.Exchange} {c : Canvas.Store}
    {x row : WorkflowExecution} (copy : Copy past x) (inv : CanvasInv strict done c) (recalled : ∀ e ∈ past, Recalled c e)
    (hrow : row ∈ c.executions) (id : row.id = x.id) (live : row.status.terminal = false) :
    (ReadExecution past x ∧ x.status = .running) ∨ ∃ y now updated, ReadExecution past y ∧ y.status = .pending ∧
      x = startedAs y now ∧ ⟨.canvas (.updateWorkflowExecution (startedAs y now) [.pending]), .ok updated⟩ ∈ past := by
  cases copy with
  | read read running => exact Or.inl ⟨read, running⟩
  | started read pending stored => exact Or.inr ⟨_, _, _, read, pending, rfl, stored⟩
  | failed _ stored =>
    obtain ⟨r, hr, ended⟩ := recalled _ stored
    rw [← Table.eq_of_key inv.ids hrow (runOf_mem hr) (id.trans (runOf_id hr).symm), live] at ended
    cases ended

/-- The execution that is read is stored. -/
theorem readExecution_stored {env : Env} {w : World} {answer : machine.Answer o} (answered : (o.exec env w).1 = answer)
    {y : WorkflowExecution} (read : ReadExecution [⟨o, answer⟩] y) : y ∈ (o.exec env w).2.canvas.executions := by
  obtain ⟨orgID, workflowID, executionID, read⟩ := read
  cases List.mem_singleton.1 read
  have run := Op.exec_ok answered
  rw [run] at answered ⊢
  simp only [Op.run, CanvasOp.run, Canvas.getWorkflowExecution] at answered ⊢
  split at answered
  · rename_i found
    cases answered
    exact List.mem_of_find?_eq_some found
  · cases answered

/-- What is stored for an execution after a call is its row, or what was written over it. -/
theorem execution_kept (fresh : w.Fresh) (reach : Reachable h allow w s) (calling : s.Calling pid o) (env : Env)
    {x : WorkflowExecution} (hx : x ∈ s.config.world.canvas.executions) :
    ∃ x' ∈ (o.exec env s.config.world).2.canvas.executions, x'.id = x.id ∧
      (x' = x ∨ x.status.terminal = false ∧ ExecutionWrite (history pid s.config.trace) x x') := by
  have inv := canvas_inv fresh reach
  obtain ⟨r, hr, -⟩ := (canvas_step fresh reach calling env).runOf (inv.runOf_of_mem hx)
  have hid := runOf_id hr
  refine ⟨r.execution, runOf_mem hr, hid, ?_⟩
  rcases execution_written fresh reach calling env (runOf_mem hr) with before | ⟨_, -, new⟩ | ⟨row, hrow, live, write⟩
  · exact Or.inl (Table.eq_of_key inv.ids before hx hid)
  · exact absurd hid.symm (new x hx)
  · have same : row = x := Table.eq_of_key inv.ids hrow hx (write.id.symm.trans hid)
    subst same
    exact Or.inr ⟨live, write⟩

theorem ReadExecution.singleton {past : List machine.Exchange} {y : WorkflowExecution} (read : ReadExecution past y) :
    ∃ c ∈ past, ReadExecution [c] y := by
  obtain ⟨orgID, workflowID, executionID, read⟩ := read
  exact ⟨_, read, orgID, workflowID, executionID, List.mem_singleton_self _⟩

end Runs

end Windylane
