import Windylane.Theorems.Claims

/-! What fails a node, and what fails an execution, while every claim has one holder. -/

namespace Windylane

open Conc Script Prog

section Runs
variable {h : Host} {w : World} {s t : State} {allow : State → Action machine Request → Prop} {pid : Nat} {o : Op}

/-! ### The linked work of a node -/

/-- A process read the linked work of the node as failed. -/
def WorkFailed (c : Config machine) (n : WorkflowNodeExecution) : Prop :=
  (∃ pid orgID id task, n.queueTaskID = some id ∧ ⟨.task (.getByID orgID id), .ok task⟩ ∈ history pid c.trace ∧
    (task.status = .failed ∨ task.status = .deadLetter ∨ task.status = .cancelled)) ∨
  ∃ pid orgID id delivery, n.webhookDeliveryID = some id ∧
    ⟨.hook (.getWebhookDelivery orgID id), .ok delivery⟩ ∈ history pid c.trace ∧ delivery.status = .failed

abbrev HasLink (n : WorkflowNodeExecution) : Prop := n.queueTaskID ≠ none ∨ n.webhookDeliveryID ≠ none

theorem history_grows (c : Config machine) (pid actor : Nat) (env : Env) (o : Op) :
    history pid c.trace ⊆ history pid (c.after actor env o).trace := by
  rw [Config.after_trace]
  by_cases mine : actor = pid
  · rw [history_self mine]
    exact List.subset_append_left _ _
  · rw [history_other mine]
    exact List.Subset.refl _

theorem WorkFailed.lasts {c : Config machine} {n : WorkflowNodeExecution} (failed : WorkFailed c n) (actor : Nat) (env : Env)
    (o : Op) : WorkFailed (c.after actor env o) n := by
  rcases failed with ⟨pid, orgID, id, task, link, read, status⟩ | ⟨pid, orgID, id, delivery, link, read, status⟩
  · exact Or.inl ⟨pid, orgID, id, task, link, history_grows c pid actor env o read, status⟩
  · exact Or.inr ⟨pid, orgID, id, delivery, link, history_grows c pid actor env o read, status⟩

/-- What is observed as failed is linked work that was read as failed. -/
theorem Observation.work_failed {c : Config machine} {row made node : WorkflowNodeExecution} {now : Time}
    (observed : Observation h (history pid c.trace) row now made) (opened : row.status = .queued ∨ row.status = .running)
    (task : node.queueTaskID = made.queueTaskID) (webhook : node.webhookDeliveryID = made.webhookDeliveryID)
    (failed : made.status = .failed) : HasLink node → WorkFailed c node := by
  obtain ⟨-, task', webhook', -⟩ := observed.links opened
  rw [task'] at task
  rw [webhook'] at webhook
  cases observed with
  | @task orgID id read link found =>
    refine fun _ => Or.inl ⟨pid, orgID, id, read, task.trans link, found, ?_⟩
    unfold mirrorTask at failed
    cases status : read.status with
    | failed => exact Or.inl rfl
    | deadLetter => exact Or.inr (Or.inl rfl)
    | cancelled => exact Or.inr (Or.inr rfl)
    | pending | processing | completed => simp [status] at failed
  | @delivery orgID id read _ link found =>
    refine fun _ => Or.inr ⟨pid, orgID, id, read, webhook.trans link, found, ?_⟩
    unfold mirrorDelivery at failed
    cases status : read.status with
    | failed => rfl
    | pending | retrying | delivering | delivered => simp [status] at failed
  | delay noTask noWebhook _ _ =>
    rintro (linked | linked)
    · exact absurd (task.trans noTask) linked
    · exact absurd (webhook.trans noWebhook) linked
  | same noTask noWebhook _ _ =>
    rintro (linked | linked)
    · exact absurd (task.trans noTask) linked
    · exact absurd (webhook.trans noWebhook) linked

/-- A linked node fails by its work. -/
theorem workFailed_law : RowLaw h allow w fun c n => n.status = .failed → HasLink n → WorkFailed c n where
  lasts := fun _ _ _ _ _ _ _ _ known failed linked => (known failed linked).lasts _ _ _
  new := by
    rintro _ n ⟨pending, -⟩ failed
    rw [pending] at failed
    cases failed
  claim := fun _ _ _ _ _ _ _ _ _ _ => nofun
  store := by
    intro s pid node expected reach write seen failed
    cases write with
    | skip _ _ => cases failed
    | execute _ _ _ executed => cases executed <;> cases failed
    | fail held _ _ =>
      rintro (linked | linked)
      · exact absurd held.task linked
      · exact absurd held.webhook linked
    | observe saw opened _ observed _ => exact observed.work_failed opened rfl rfl failed
  close := fun _ _ _ _ _ _ _ => nofun

/-- A node stays in the table with its links. -/
theorem links_kept_run (fresh : w.Fresh) (reach : Reachable h RecoversAlone w s)
    (later : System.Reach (body h) RecoversAlone s t) {n : WorkflowNodeExecution} (hn : n ∈ s.config.world.canvas.nodes) :
    ∃ n' ∈ t.config.world.canvas.nodes, SameNode n n' ∧ LinksKept n n' := by
  induction later with
  | refl => exact ⟨n, hn, .refl n, .refl n⟩
  | @next s' t a prior _ taken ih =>
    have reach' := reach.trans prior
    obtain ⟨n', hn', same, kept⟩ := ih
    obtain ⟨n'', hn'', rfl | ⟨actor, env, o, -, calling, made⟩⟩ := nodes_next fresh reach' taken hn'
    · exact ⟨n'', hn'', same, kept⟩
    · exact ⟨n'', hn'', same.trans made.same, kept.trans ((exclusive_run fresh reach').kept fresh reach' calling hn' made)⟩

/-- A link stays, and the work that is linked decides whether the node fails. -/
theorem linked_work_decides (fresh : w.Fresh) (reach : Reachable h RecoversAlone w s) {n : WorkflowNodeExecution}
    (hn : n ∈ s.config.world.canvas.nodes) (later : System.Reach (body h) RecoversAlone s t) :
    (∃ n' ∈ t.config.world.canvas.nodes, SameNode n n') ∧ ∀ n' ∈ t.config.world.canvas.nodes, SameNode n n' →
      (∀ id, n.queueTaskID = some id → n'.queueTaskID = some id) ∧
      (∀ id, n.webhookDeliveryID = some id → n'.webhookDeliveryID = some id) ∧
      (HasLink n → n'.status = .failed → WorkFailed t.config n') := by
  have reach' := reach.trans later
  obtain ⟨n', hn', same, kept⟩ := links_kept_run fresh reach later hn
  refine ⟨⟨n', hn', same⟩, fun n'' hn'' same' => ?_⟩
  have is : n'' = n' := (canvas_inv fresh reach').node_unique hn' hn''
    (same'.workflowExecutionID.trans same.workflowExecutionID.symm) (Or.inl (same'.nodeID.trans same.nodeID.symm))
  subst is
  refine ⟨kept.task, kept.webhook, fun linked failed => (rows_run workFailed_law fresh reach').1 n'' hn'' failed ?_⟩
  rcases linked with linked | linked
  · obtain ⟨id, link⟩ := Option.ne_none_iff_exists'.1 linked
    exact Or.inl (by simp [kept.task id link])
  · obtain ⟨id, link⟩ := Option.ne_none_iff_exists'.1 linked
    exact Or.inr (by simp [kept.webhook id link])

end Runs

/-! ### Recovery under the holder -/

-- for the runs, which are evaluated call by call
set_option maxRecDepth 2000

/-- The call of a process does not happen, and it is told so. -/
def loses (pid : Nat) (now : Time) : Action machine Request :=
  .step pid { sampleEnv now ⟨600⟩ with fault := some (.lost (.other "connection reset")) }

/-- A process claims the task node and is slow; another one recovers the claim; the first one dispatches the task and links
    it. -/
def contestedRun : List (Action machine Request) :=
  [.spawn (.startExecution (sampleStart (.json (.obj [("go", .bool true)]))))] ++ steps 0 0 (idsFrom 100 37) ++
    [.spawn (.advanceExecution ⟨1⟩ ⟨2⟩ ⟨103⟩)] ++ steps 1 (seconds 60) (idsFrom 500 6) ++
    steps 0 (seconds 60) (idsFrom 200 26)

/-- A worker has started the task, and the node runs again; now the second process fails to dispatch. The link is gone, and
    the node has failed while its task is processed. -/
theorem contestedRun_unlinks : ∃ s t n n' task, (System.init gateWorld).run (body sampleHost) (contestedRun ++
      [.spawn (.dispatch ⟨1⟩ "jobs" "w")] ++ steps 2 (seconds 60) (idsFrom 300 3) ++
      [.spawn (.advanceExecution ⟨1⟩ ⟨2⟩ ⟨103⟩)] ++ steps 3 (seconds 60) (idsFrom 900 6)) = some s ∧
    s.run (body sampleHost) ([loses 1 (seconds 60)] ++ steps 1 (seconds 60) (idsFrom 700 2)) = some t ∧
    s.config.world.canvas.nodes.getLast? = some n ∧ t.config.world.canvas.nodes.getLast? = some n' ∧
    n.id = ⟨106⟩ ∧ n.queueTaskID = some ⟨202⟩ ∧ n'.id = ⟨106⟩ ∧ n'.queueTaskID = none ∧ n'.status = .failed ∧
    t.config.world.tasks = [task] ∧ task.id = ⟨202⟩ ∧ task.status = .processing :=
  ⟨_, _, _, _, _, rfl, rfl, rfl, rfl, rfl, rfl, rfl, rfl, rfl, rfl, rfl, rfl⟩

/-- `RecoversAlone`, decided. -/
def recoversAlone (s : State) : Action machine Request → Bool
  | .step pid _ =>
    match s.procs[pid]? with
    | some ⟨_, .call (.sys (.recovery executionID nodeID)) _, true⟩ =>
      ((List.range s.procs.length).all fun other => other = pid || !holding executionID nodeID (history other s.config.trace) ||
        (s.procs[other]?.any fun p => !p.alive)) &&
      s.config.world.canvas.nodes.any fun n => n.workflowExecutionID = executionID && n.nodeID = nodeID &&
        n.status = .running && n.queueTaskID = none && n.webhookDeliveryID = none && n.availableAt = none
    | _ => true
  | _ => true

theorem recoversAlone_sound {s : State} {a : Action machine Request} (checked : recoversAlone s a = true) :
    RecoversAlone s a := by
  rintro pid env executionID nodeID rfl ⟨request, k, hp⟩
  simp only [recoversAlone, hp, Bool.and_eq_true, List.all_eq_true, List.any_eq_true, decide_eq_true_eq] at checked
  obtain ⟨free, n, hn, ⟨⟨⟨⟨execution, node⟩, running⟩, task⟩, webhook⟩, delay⟩ := checked
  refine ⟨?_, n, hn, execution, node, running, task, webhook, delay⟩
  rintro other ⟨⟨o, request', k', busy⟩, holds⟩
  have spawned : other < s.procs.length := (List.getElem?_eq_some_iff.1 busy).1
  simpa [holds, busy] using free other (List.mem_range.2 spawned)

/-- The holder is gone when its claim is recovered and the task linked. -/
def adoptedRun : List (Action machine Request) :=
  [.spawn (.startExecution (sampleStart (.json (.obj [("go", .bool true)]))))] ++ steps 0 0 (idsFrom 100 50) ++
    [.crash 0, .spawn (.advanceExecution ⟨1⟩ ⟨2⟩ ⟨103⟩)] ++ steps 1 (seconds 60) (idsFrom 500 8)

/-- The task is cancelled, and observed. -/
def cancelledWork : List (Action machine Request) :=
  [.spawn (.cancelTask ⟨1⟩ ⟨139⟩)] ++ steps 2 (seconds 60) (idsFrom 700 2) ++
    [.spawn (.advanceExecution ⟨1⟩ ⟨2⟩ ⟨103⟩)] ++ steps 3 (seconds 60) (idsFrom 800 6)

theorem adoptedRun_decides : ∃ s t n n',
    System.runChecked (body sampleHost) recoversAlone (System.init gateWorld) adoptedRun = some s ∧
    s.runChecked (body sampleHost) recoversAlone cancelledWork = some t ∧ n ∈ s.config.world.canvas.nodes ∧
    n.queueTaskID = some ⟨139⟩ ∧ n' ∈ t.config.world.canvas.nodes ∧ n'.queueTaskID = some ⟨139⟩ ∧ n'.status = .failed ∧
    WorkFailed t.config n' := by
  have run : ∃ s t n n', System.runChecked (body sampleHost) recoversAlone (System.init gateWorld) adoptedRun = some s ∧
      s.runChecked (body sampleHost) recoversAlone cancelledWork = some t ∧
      s.config.world.canvas.nodes.getLast? = some n ∧ t.config.world.canvas.nodes.getLast? = some n' ∧
      n.queueTaskID = some ⟨139⟩ ∧ n'.status = .failed ∧ n.workflowExecutionID = ⟨103⟩ ∧ n'.workflowExecutionID = ⟨103⟩ ∧
      n.nodeID = "work" ∧ n'.nodeID = "work" :=
    ⟨_, _, _, _, rfl, rfl, rfl, rfl, rfl, rfl, rfl, rfl, rfl, rfl⟩
  obtain ⟨s, t, n, n', before, after, last, last', link, failed, execution, execution', node, node'⟩ := run
  have hn := List.mem_of_getLast? last
  have hn' := List.mem_of_getLast? last'
  have reach := System.reach_of_checked (fun _ _ _ => recoversAlone_sound) before
  have later := System.reach_of_checked (fun _ _ _ => recoversAlone_sound) after
  obtain ⟨⟨n'', hn'', same⟩, decides⟩ := linked_work_decides gateWorld_fresh reach hn later
  have is : n' = n'' := (canvas_inv gateWorld_fresh (reach.trans later)).node_unique hn'' hn'
    (execution'.trans (execution.symm.trans same.workflowExecutionID.symm)) (Or.inl (node'.trans (node.symm.trans same.nodeID.symm)))
  obtain ⟨task, -, work⟩ := decides n' hn' (is ▸ same)
  exact ⟨s, t, n, n', before, after, hn, link, hn', task _ link, failed, work (Or.inl (by simp [link])) failed⟩

/-! ### The failed node of an execution -/

section Runs
variable {h : Host} {w : World} {s t : State} {allow : State → Action machine Request → Prop} {pid : Nat} {o : Op}

/-- The node is stored, or its execution has ended without it. -/
def StoredOrOver (c : Canvas.Store) (node : WorkflowNodeExecution) : Prop :=
  node ∈ c.nodes ∨ ∃ x ∈ c.executions, x.id = node.workflowExecutionID ∧ x.status.terminal = true

theorem StoredOrOver.lasts (fresh : w.Fresh) (reach : Reachable h allow w s) (calling : s.Calling pid o) (env : Env)
    {node : WorkflowNodeExecution} (known : StoredOrOver s.config.world.canvas node) (ended : node.status.terminal = true) :
    StoredOrOver (o.exec env s.config.world).2.canvas node := by
  rcases known with hn | ⟨x, hx, hid, closed⟩
  · exact Or.inl (node_stays fresh reach calling env hn ended)
  · obtain ⟨x', hx', hid', rfl | ⟨live, -⟩⟩ := execution_kept fresh reach calling env hx
    · exact Or.inr ⟨x', hx', hid, closed⟩
    · rw [closed] at live
      cases live

/-- What the holder of a claim stores is stored, unless the node was cancelled. -/
theorem Exclusive.stores (exclusive : Exclusive s) (fresh : w.Fresh) (reach : Reachable h allow w s)
    {base node : WorkflowNodeExecution} {env : Env} {updated : Bool}
    (calling : s.Calling pid (.canvas (.updateWorkflowNodeExecution node .running)))
    (held : Held (history pid s.config.trace) base) (same : SameNode base node)
    (answered : ((Op.canvas (.updateWorkflowNodeExecution node .running)).exec env s.config.world).1 = .ok updated) :
    StoredOrOver ((Op.canvas (.updateWorkflowNodeExecution node .running)).exec env s.config.world).2.canvas node := by
  have inv := canvas_inv fresh reach
  have mine : Holds s pid base.workflowExecutionID base.nodeID := ⟨⟨_, calling⟩, held.holding⟩
  obtain ⟨n, hn, execution, nodeID, claimed⟩ := exclusive.row _ _ _ mine
  obtain ⟨n', hn', same', -⟩ := exclusive.links pid base held.saw
  have is : n' = n := inv.node_unique hn hn' (same'.workflowExecutionID.trans execution.symm)
    (Or.inl (same'.nodeID.trans nodeID.symm))
  subst is
  have row : SameNode n' node := same'.symm.trans same
  rw [Op.exec_ok answered]
  rcases claimed with ⟨running, -⟩ | cancelled
  · refine Or.inl (Table.mem_update.2 ⟨n', hn', ?_⟩)
    rw [if_pos (by simp [row.orgID, row.workflowExecutionID, row.id, running]), overwrite_eq row]
  · obtain ⟨r, d, hr, hnr, -, run⟩ := inv.run_of_node hn'
    have hx : r.execution ∈ s.config.world.canvas.executions := runOf_mem hr
    refine Or.inr ⟨r.execution, hx, (runOf_id hr).trans row.workflowExecutionID.symm, ?_⟩
    cases closed : r.execution.status.terminal with
    | true => rfl
    | false => exact absurd cancelled (run.live closed n' hnr)

/-- The execution has the error of a node that failed. -/
def FailedBy (c : Canvas.Store) (x : WorkflowExecution) : Prop :=
  ∃ n ∈ c.nodes, n.workflowExecutionID = x.id ∧ n.status = .failed ∧ x.errorCode = n.errorCode ∧
    x.errorMessage = n.errorMessage

/-- What the exchange left, when a holder stored its node as failed. -/
def FailureStored (c : Config machine) (past : List machine.Exchange) (e : machine.Exchange) : Prop :=
  ∀ base node updated, e = ⟨.canvas (.updateWorkflowNodeExecution node .running), .ok updated⟩ → Held past base →
    SameNode base node → node.status = .failed → StoredOrOver c.world.canvas node

/-- An execution fails by one of its nodes. -/
theorem failed_by_node (fresh : w.Fresh) (reach : Reachable h RecoversAlone w s) {x : WorkflowExecution}
    (hx : x ∈ s.config.world.canvas.executions) (failed : x.status = .failed) : FailedBy s.config.world.canvas x := by
  have run := reach.recalls_past (W := fun c : Config machine => ∀ x ∈ c.world.canvas.executions, x.status = .failed →
    FailedBy c.world.canvas x) (K := FailureStored) (fun x hx => by simp [fresh.executions] at hx) ?_
  · exact run.1 x hx failed
  intro s pid env o prior allowed calling known stored
  have stays : ∀ {x}, FailedBy s.config.world.canvas x → FailedBy (s.config.after pid env o).world.canvas x := by
    rintro x ⟨n, hn, execution, failed, blamed⟩
    exact ⟨n, node_stays fresh prior calling env hn (by rw [failed]; rfl), execution, failed, blamed⟩
  refine ⟨fun x' hx' failed => ?_, ?_, ?_⟩
  · rcases execution_written fresh prior calling env hx' with hx | ⟨_, new, -⟩ | ⟨row, hrow, live, write⟩
    · exact stays (known x' hx failed)
    · rw [new.status] at failed
      cases failed
    · cases write with
      | started _ _ _ _ => cases failed
      | touched _ _ _ => cases failed
      | succeeded _ _ => cases failed
      | cancelled _ => cases failed
      | @failed y code message now copy id blames =>
        apply stays
        rcases blames with ⟨n, saw, execution, status, rfl, rfl⟩ |
          ⟨node, updated, before, rest, split, ⟨base, held, same⟩, execution, status, rfl, rfl⟩
        · have ended : n.status.terminal = true := by rw [status]; rfl
          exact ⟨n, (saw.stands (recalled_run fresh prior pid)).stored ended, execution.trans id.symm, status, rfl, rfl⟩
        · rcases stored pid _ _ _ split base node updated rfl held same status with hn | ⟨x, hx, hid, closed⟩
          · exact ⟨node, hn, execution.trans id.symm, status, rfl, rfl⟩
          · -- the execution would have ended before
            have is : x = row := Table.eq_of_key (canvas_inv fresh prior).ids hx hrow ((hid.trans execution).trans id.symm)
            rw [is, live] at closed
            cases closed
  · intro base node updated called held same _
    generalize answered : (machine.exec env o s.config.world).1 = answer at called
    cases called
    exact (exclusive_run fresh prior).stores fresh prior calling held same answered
  · intro past c left base node updated called held same status
    exact (left base node updated called held same status).lasts fresh prior calling env (by rw [status]; rfl)

end Runs

/-- The second process fails to dispatch after the first one linked the task: the execution fails, and no node has. -/
theorem contestedRun_fails : ∃ s x, (System.init gateWorld).run (body sampleHost)
      (contestedRun ++ [loses 1 (seconds 60)] ++ steps 1 (seconds 60) (idsFrom 700 4)) = some s ∧
    s.config.world.canvas.executions = [x] ∧ x.status = .failed ∧
    s.config.world.canvas.nodes.map (fun n => (n.nodeID, n.status)) =
      [("start", .succeeded), ("gate", .succeeded), ("work", .cancelled)] :=
  ⟨_, _, rfl, rfl, rfl, rfl⟩

/-- The holder is gone when its claim is recovered, and the node fails with the dispatch. -/
def abandonedRun : List (Action machine Request) :=
  [.spawn (.startExecution (sampleStart (.json (.obj [("go", .bool true)]))))] ++ steps 0 0 (idsFrom 100 37) ++
    [.crash 0, .spawn (.advanceExecution ⟨1⟩ ⟨2⟩ ⟨103⟩)] ++ steps 1 (seconds 60) (idsFrom 500 6) ++
    [loses 1 (seconds 60)] ++ steps 1 (seconds 60) (idsFrom 700 5)

theorem abandonedRun_fails : ∃ s x,
    System.runChecked (body sampleHost) recoversAlone (System.init gateWorld) abandonedRun = some s ∧
    x ∈ s.config.world.canvas.executions ∧ x.status = .failed ∧ FailedBy s.config.world.canvas x := by
  have run : ∃ s x, System.runChecked (body sampleHost) recoversAlone (System.init gateWorld) abandonedRun = some s ∧
      s.config.world.canvas.executions = [x] ∧ x.status = .failed := ⟨_, _, rfl, rfl, rfl⟩
  obtain ⟨s, x, run, only, failed⟩ := run
  have hx : x ∈ s.config.world.canvas.executions := by
    rw [only]
    exact List.mem_singleton_self x
  exact ⟨s, x, run, hx, failed,
    failed_by_node gateWorld_fresh (System.reach_of_checked (fun _ _ _ => recoversAlone_sound) run) hx failed⟩

end Windylane
