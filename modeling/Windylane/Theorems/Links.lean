import Windylane.Theorems.Coherence
import Windylane.Theorems.Sends

/-! The external work of a node. The key of its task and the id of its delivery are functions of the execution and the
    node, and the tables keep them unique; so however often the work is dispatched, there is one row, and it is the
    row that the node is linked to. -/

namespace Windylane

open Conc Script Prog

/-! ### Work that was found stays -/

/-- The task is stored under the key of the node. -/
def TaskStored (w : World) (orgID executionID : UUID) (nodeID queue : String) (id : UUID) : Prop :=
  ∃ fingerprint, (⟨some (.task orgID queue (workflowTaskKey executionID nodeID)), id, fingerprint⟩ : Entry) ∈ w.entries

def DeliveryStored (w : World) (orgID id : UUID) : Prop := ∃ d ∈ w.hooks.deliveries, d.id = id ∧ d.orgID = orgID

theorem TaskStored.step {w : World} {orgID executionID : UUID} {nodeID queue : String} {id : UUID}
    (stored : TaskStored w orgID executionID nodeID queue id) (env : Env) (o : Op) :
    TaskStored (o.exec env w).2 orgID executionID nodeID queue id := by
  obtain ⟨fingerprint, stored⟩ := stored
  exact ⟨fingerprint, entry_kept stored env o⟩

theorem workflowTaskKey_ne (executionID : UUID) (nodeID : String) : workflowTaskKey executionID nodeID ≠ "" := by
  intro empty
  have := congrArg String.toList empty
  simp [workflowTaskKey] at this

theorem DeliveryChange.orgID {env : Env} {c : Config machine} {o : Op} {r r' : WebhookDelivery}
    (h : DeliveryChange env c o r r') : r'.orgID = r.orgID := by
  cases h <;> rfl

theorem DeliveryStored.step {c : Config machine} (inv : HooksInv False c) {orgID id : UUID}
    (stored : DeliveryStored c.world orgID id) (pid : Nat) (env : Env) (o : Op) :
    DeliveryStored (c.after pid env o).world orgID id := by
  obtain ⟨d, hd, rfl, rfl⟩ := stored
  obtain ⟨f, new, rows, changed, -⟩ := inv.moves pid env o
  refine ⟨f d, ?_, (changed d hd).id, (changed d hd).orgID⟩
  change f d ∈ deliveries (c.after pid env o)
  rw [rows]
  exact List.mem_append_left _ (List.mem_map_of_mem hd)

/-- What an answer says about the external work, for good. -/
structure WorkKnown (w : World) (c : machine.Exchange) : Prop where
  task : ∀ orgID executionID nodeID queue id, FoundTask orgID executionID nodeID queue id c →
    TaskStored w orgID executionID nodeID queue id
  delivery : ∀ orgID id, FoundDelivery orgID id c → DeliveryStored w orgID id

theorem work_answered (env : Env) (o : Op) (w : World) : WorkKnown (o.exec env w).2 ⟨o, (o.exec env w).1⟩ := by
  generalize answered : (o.exec env w).1 = answer
  refine ⟨fun orgID executionID nodeID queue id found => ?_, fun orgID id found => ?_⟩
  · unfold FoundTask at found
    split at found
    · rename_i t _ heq
      cases heq
      obtain ⟨rfl, rfl, rfl, key⟩ := found
      have created : creates (.task (.create t)) ((Op.task (.create t)).exec env w).1 = some t.entry := by
        rw [answered]
        rfl
      have named : t.idempotencyKey ≠ "" := by
        rw [key]
        exact workflowTaskKey_ne _ _
      refine ⟨t.requestFingerprint, (created_entry created).2.mem_iff.2 ?_⟩
      rw [show t.entry = ⟨some (.task t.orgID t.queue t.idempotencyKey), t.id, t.requestFingerprint⟩ by simp [Task.entry, named], key]
      exact List.mem_cons_self
    · rename_i org q key t heq
      cases heq
      obtain ⟨rfl, rfl, rfl, rfl⟩ := found
      exact ⟨_, entry_kept (findByIdempotencyKey_entry answered) env _⟩
    · exact found.elim
  · unfold FoundDelivery at found
    split at found
    · rename_i d _ heq
      cases heq
      obtain ⟨rfl, rfl⟩ := found
      have run := Op.exec_ok answered
      rw [run] at answered ⊢
      simp only [Op.run, HookOp.run, Webhooks.createWebhookDelivery] at answered ⊢
      split at answered
      · cases answered
      split at answered
      · cases answered
      split at answered
      · cases answered
      · rename_i new joined sane
        rw [if_neg new, if_neg joined, if_neg sane]
        exact ⟨d, List.mem_append_right _ (List.mem_singleton_self _), rfl, rfl⟩
    · rename_i org delivery d heq
      cases heq
      obtain ⟨rfl, rfl⟩ := found
      have run := Op.exec_ok answered
      rw [run] at answered ⊢
      simp only [Op.run, HookOp.run, Webhooks.getWebhookDelivery] at answered ⊢
      split at answered
      · rename_i found
        cases answered
        have named := List.find?_some found
        simp only [Bool.and_eq_true, decide_eq_true_eq] at named
        exact ⟨d, List.mem_of_find?_eq_some found, named.2, named.1⟩
      · cases answered
    · exact found.elim

section Runs
variable {h : Host} {w : World} {s t : State} {allow : State → Action machine Request → Prop}

theorem work_run (fresh : w.Fresh) (reach : Reachable h allow w s) (pid : Nat) :
    ∀ c ∈ history pid s.config.trace, WorkKnown s.config.world c := by
  refine (reach.recalls (W := fun _ => True) (K := fun (config : Config machine) c => WorkKnown config.world c) trivial ?_).2 pid
  intro s pid env o reach _ calling _ _
  refine ⟨trivial, work_answered env o s.config.world, fun c known => ?_⟩
  exact ⟨fun orgID executionID nodeID queue id found => (known.task orgID executionID nodeID queue id found).step env o,
    fun orgID id found => (known.delivery orgID id found).step (delivery_inv fresh reach) pid env o⟩

/-! ### Links -/

/-- A node is linked to the work of its own key. -/
structure LinksOwn (h : Host) (w : World) (n : WorkflowNodeExecution) : Prop where
  task : ∀ id, n.queueTaskID = some id → ∃ d m config, Pinned w.canvas n.workflowExecutionID d ∧ m ∈ d.nodeList ∧
    m.id = n.nodeID ∧ parseWorkflowTaskConfig m.config = .ok config ∧
    TaskStored w n.orgID n.workflowExecutionID n.nodeID config.queue id
  delivery : ∀ id, n.webhookDeliveryID = some id → id = nodeDeliveryID h n.workflowExecutionID n.nodeID ∧
    DeliveryStored w n.orgID id

/-- The links say which row a node has, not what happened to it. -/
theorem LinksOwn.of_row {n n' : WorkflowNodeExecution} (own : LinksOwn h w n) (same : SameNode n n')
    (task : n'.queueTaskID = n.queueTaskID) (delivery : n'.webhookDeliveryID = n.webhookDeliveryID) : LinksOwn h w n' := by
  refine ⟨fun id link => ?_, fun id link => ?_⟩
  · rw [same.workflowExecutionID, same.nodeID, same.orgID]
    exact own.task id (task.symm.trans link)
  · rw [same.workflowExecutionID, same.nodeID, same.orgID]
    exact own.delivery id (delivery.symm.trans link)

theorem LinksOwn.unlinked {n : WorkflowNodeExecution} (task : n.queueTaskID = none) (delivery : n.webhookDeliveryID = none) :
    LinksOwn h w n where
  task := fun id link => by
    rw [task] at link
    cases link
  delivery := fun id link => by
    rw [delivery] at link
    cases link

theorem links_law (fresh : w.Fresh) : RowLaw h allow w fun c n => LinksOwn h c.world n where
  lasts := by
    intro s pid env o n reach _ calling own
    refine ⟨fun id link => ?_, fun id link => ?_⟩
    · obtain ⟨d, m, config, pinned, hm, hid, parsed, stored⟩ := own.task id link
      exact ⟨d, m, config, pinned.step (canvas_step fresh reach calling env), hm, hid, parsed, stored.step env o⟩
    · obtain ⟨same, stored⟩ := own.delivery id link
      exact ⟨same, stored.step (delivery_inv fresh reach) pid env o⟩
  new := by
    rintro c n ⟨-, -, -, -, -, unlinked⟩
    exact .unlinked unlinked.task unlinked.webhook
  claim := fun s pid n orgID now _ _ _ _ own => own.of_row ⟨rfl, rfl, rfl, rfl, rfl, rfl⟩ rfl rfl
  store := by
    intro s pid node expected reach write saw
    have known := work_run fresh reach pid
    cases write with
    | skip held _ => exact .unlinked held.task held.webhook
    | fail held _ _ => exact .unlinked held.task held.webhook
    | observe seen opened _ observed _ =>
      cases observed.becomes opened <;> exact (saw _ seen).of_row ⟨rfl, rfl, rfl, rfl, rfl, rfl⟩ rfl rfl
    | @execute x d m base node now held _ assigned executed =>
      obtain ⟨r, hr, -, pinned⟩ := assigned.plan.pinned (canvas_inv fresh reach).versions (recalled_run fresh reach pid)
      cases executed with
      | trigger _ => exact .unlinked held.task held.webhook
      | condition _ _ => exact .unlinked held.task held.webhook
      | delay _ _ _ => exact .unlinked held.task held.webhook
      | task id config _ parsed found =>
        obtain ⟨c, hc, found⟩ := found
        refine ⟨fun id' link => ?_, fun id' link => ?_⟩
        · cases link
          have stored := (known c hc).task _ _ _ _ _ found
          rw [assigned.orgID, assigned.executionID, assigned.nodeID] at stored
          exact ⟨d, m, config, ⟨r, assigned.executionID ▸ hr, pinned⟩, assigned.member, assigned.nodeID, parsed, stored⟩
        · rw [show base.webhookDeliveryID = none from held.webhook] at link
          cases link
      | webhook _ found =>
        obtain ⟨c, hc, found⟩ := found
        refine ⟨fun id' link => ?_, fun id' link => ?_⟩
        · rw [show base.queueTaskID = none from held.task] at link
          cases link
        · cases link
          have stored := (known c hc).delivery _ _ found
          rw [assigned.orgID] at stored
          rw [assigned.executionID, assigned.nodeID] at stored ⊢
          exact ⟨rfl, stored⟩
  close := fun c n code message now _ own => own.of_row ⟨rfl, rfl, rfl, rfl, rfl, rfl⟩ rfl rfl

/-! ### One row for a node -/

/-- The tasks with the key of a node. -/
def nodeTasks (w : World) (orgID executionID : UUID) (nodeID queue : String) : List Task :=
  w.tasks.filter fun t => t.orgID = orgID && t.queue = queue && t.idempotencyKey = workflowTaskKey executionID nodeID

/-- The deliveries with the id of a node. -/
def nodeDeliveries (h : Host) (w : World) (executionID : UUID) (nodeID : String) : List WebhookDelivery :=
  w.hooks.deliveries.filter fun d => d.id = nodeDeliveryID h executionID nodeID

/-- There is at most one piece of work for a node, and it is what the node is linked to. -/
structure WorkOnce (h : Host) (w : World) : Prop where
  tasks : ∀ orgID executionID nodeID queue, (nodeTasks w orgID executionID nodeID queue).length ≤ 1
  deliveries : ∀ executionID nodeID, (nodeDeliveries h w executionID nodeID).length ≤ 1
  task : ∀ n ∈ w.canvas.nodes, ∀ id, n.queueTaskID = some id → ∃ d m config t, Pinned w.canvas n.workflowExecutionID d ∧
    m ∈ d.nodeList ∧ m.id = n.nodeID ∧ parseWorkflowTaskConfig m.config = .ok config ∧
    nodeTasks w n.orgID n.workflowExecutionID n.nodeID config.queue = [t] ∧ t.id = id
  delivery : ∀ n ∈ w.canvas.nodes, ∀ id, n.webhookDeliveryID = some id →
    ∃ d, nodeDeliveries h w n.workflowExecutionID n.nodeID = [d] ∧ d.id = id ∧ d.orgID = n.orgID

theorem eq_singleton_of_mem {α : Type} {l : List α} {a : α} (few : l.length ≤ 1) (ha : a ∈ l) : l = [a] := by
  cases l with
  | nil => cases ha
  | cons b rest =>
    cases rest with
    | nil => rw [List.mem_singleton.1 ha]
    | cons _ _ => simp at few

theorem keyed_run (fresh : w.Fresh) (reach : Reachable h allow w s) : s.config.world.Keyed := by
  refine (reach.recalls (W := fun c : Config machine => c.world.Keyed) (K := fun _ _ => True) ?_ ?_).1
  · simp [World.Keyed, World.entries, fresh.tasks, fresh.executions]
  · exact fun s pid env o _ _ _ keyed _ => ⟨keyed.step env o, trivial, fun _ _ => trivial⟩

theorem nodeTasks_le_one {w : World} (keyed : w.Keyed) (orgID executionID : UUID) (nodeID queue : String) :
    (nodeTasks w orgID executionID nodeID queue).length ≤ 1 := by
  have once := List.nodup_iff_count_le_one.1 keyed (.task orgID queue (workflowTaskKey executionID nodeID))
  rw [List.count_filterMap, World.entries, List.countP_append, List.countP_map] at once
  refine le_trans ?_ (le_trans (Nat.le_add_right _ _) once)
  rw [nodeTasks, ← List.countP_eq_length_filter]
  refine List.countP_mono_left fun t _ keyed => ?_
  simp only [Bool.and_eq_true, decide_eq_true_eq] at keyed
  simp [Task.entry, keyed, workflowTaskKey_ne]

theorem nodeDeliveries_le_one {c : Config machine} (inv : HooksInv False c) (executionID : UUID) (nodeID : String) :
    (nodeDeliveries h c.world executionID nodeID).length ≤ 1 := by
  have once := List.nodup_iff_count_le_one.1 inv.ids (nodeDeliveryID h executionID nodeID)
  rw [List.count_eq_countP, List.countP_map] at once
  rw [nodeDeliveries, ← List.countP_eq_length_filter]
  refine le_trans (List.countP_mono_left fun d _ same => ?_) once
  simpa using same

theorem TaskStored.mem {w : World} {orgID executionID : UUID} {nodeID queue : String} {id : UUID}
    (stored : TaskStored w orgID executionID nodeID queue id) :
    ∃ t ∈ nodeTasks w orgID executionID nodeID queue, t.id = id := by
  obtain ⟨fingerprint, stored⟩ := stored
  rcases List.mem_append.1 stored with task | execution
  · obtain ⟨t, ht, same⟩ := List.mem_map.1 task
    simp only [Task.entry, Entry.mk.injEq] at same
    obtain ⟨key, rfl, -⟩ := same
    split at key
    · cases key
    · simp only [Option.some.injEq, Key.task.injEq] at key
      exact ⟨t, List.mem_filter.2 ⟨ht, by simp [key]⟩, rfl⟩
  · obtain ⟨x, -, same⟩ := List.mem_map.1 execution
    simp [WorkflowExecution.entry] at same

theorem workOnce_run (fresh : w.Fresh) (reach : Reachable h allow w s) : WorkOnce h s.config.world := by
  have keyed := keyed_run fresh reach
  have inv := delivery_inv fresh reach
  have own := (rows_run (links_law fresh) fresh reach).1
  refine ⟨nodeTasks_le_one keyed, nodeDeliveries_le_one inv, fun n hn id link => ?_, fun n hn id link => ?_⟩
  · obtain ⟨d, m, config, pinned, hm, hid, parsed, stored⟩ := (own n hn).task id link
    obtain ⟨t, ht, same⟩ := stored.mem
    exact ⟨d, m, config, t, pinned, hm, hid, parsed, eq_singleton_of_mem (nodeTasks_le_one keyed _ _ _ _) ht, same⟩
  · obtain ⟨rfl, d, hd, same, org⟩ := (own n hn).delivery id link
    exact ⟨d, eq_singleton_of_mem (nodeDeliveries_le_one inv _ _) (List.mem_filter.2 ⟨hd, by simp [same]⟩), same, org⟩

/-- Work that is stored stays. -/
theorem stored_kept (fresh : w.Fresh) (reach : Reachable h allow w s) (later : System.Reach (body h) allow s t) :
    (∀ orgID executionID nodeID queue id, TaskStored s.config.world orgID executionID nodeID queue id →
      TaskStored t.config.world orgID executionID nodeID queue id) ∧
    ∀ orgID id, DeliveryStored s.config.world orgID id → DeliveryStored t.config.world orgID id := by
  refine later.invariant (fun t : State => (∀ orgID executionID nodeID queue id,
      TaskStored s.config.world orgID executionID nodeID queue id → TaskStored t.config.world orgID executionID nodeID queue id) ∧
    ∀ orgID id, DeliveryStored s.config.world orgID id → DeliveryStored t.config.world orgID id)
    ⟨fun _ _ _ _ _ stored => stored, fun _ _ stored => stored⟩ ?_
  intro u u' a prior kept _ taken
  rcases System.next_cases taken with ⟨_, -, rfl⟩ | ⟨pid, env, request, o, k, -, hp, rfl⟩ | ⟨_, _, -, -, rfl⟩
  · exact kept
  · refine ⟨fun _ _ _ _ _ stored => (kept.1 _ _ _ _ _ stored).step env o, fun _ _ stored => ?_⟩
    exact (kept.2 _ _ stored).step (delivery_inv fresh (reach.trans prior)) pid env o
  · exact kept

theorem taskStored_of_mem {w : World} {orgID executionID : UUID} {nodeID queue : String} {task : Task}
    (ht : task ∈ nodeTasks w orgID executionID nodeID queue) : TaskStored w orgID executionID nodeID queue task.id := by
  obtain ⟨ht, keyed⟩ := List.mem_filter.1 ht
  simp only [Bool.and_eq_true, decide_eq_true_eq] at keyed
  refine ⟨task.requestFingerprint, List.mem_append_left _ (List.mem_map.2 ⟨task, ht, ?_⟩)⟩
  simp [Task.entry, keyed, workflowTaskKey_ne]

/-- However often the work of a node is dispatched, one row of it is ever created, and the node is linked to no other. -/
theorem external_work_once (fresh : w.Fresh) (reach : Reachable h anything w s) : WorkOnce h s.config.world ∧
    ∀ t, System.Reach (body h) anything s t →
      (∀ orgID executionID nodeID queue task, nodeTasks s.config.world orgID executionID nodeID queue = [task] →
        ∃ task', nodeTasks t.config.world orgID executionID nodeID queue = [task'] ∧ task'.id = task.id) ∧
      ∀ executionID nodeID d, nodeDeliveries h s.config.world executionID nodeID = [d] →
        ∃ d', nodeDeliveries h t.config.world executionID nodeID = [d'] ∧ d'.id = d.id := by
  refine ⟨workOnce_run fresh reach, fun t later => ?_⟩
  have once := workOnce_run fresh (reach.trans later)
  obtain ⟨tasks, deliveries⟩ := stored_kept fresh reach later
  refine ⟨fun orgID executionID nodeID queue task before => ?_, fun executionID nodeID d before => ?_⟩
  · have ht : task ∈ nodeTasks s.config.world orgID executionID nodeID queue := by
      rw [before]
      exact List.mem_singleton_self _
    obtain ⟨task', ht, same⟩ := (tasks orgID executionID nodeID queue task.id (taskStored_of_mem ht)).mem
    exact ⟨task', eq_singleton_of_mem (once.tasks _ _ _ _) ht, same⟩
  · have hd : d ∈ nodeDeliveries h s.config.world executionID nodeID := by
      rw [before]
      exact List.mem_singleton_self _
    obtain ⟨hd, named⟩ := List.mem_filter.1 hd
    obtain ⟨d', hd', same, -⟩ := deliveries d.orgID d.id ⟨d, hd, rfl, rfl⟩
    refine ⟨d', eq_singleton_of_mem (once.deliveries _ _) (List.mem_filter.2 ⟨hd', ?_⟩), same⟩
    rw [same]
    exact named

end Runs

/-- The task of the sample workflow is dispatched, its process crashes before the link is stored, and another one
    recovers the claim. -/
def relinkedRun : List (Action machine Request) :=
  [.spawn (.startExecution (sampleStart (.json (.obj [("go", .bool true)]))))] ++ steps 0 0 (idsFrom 100 50) ++
    [.crash 0, .spawn (.advanceExecution ⟨1⟩ ⟨2⟩ ⟨103⟩)] ++ steps 1 (seconds 60) (idsFrom 500 8)

theorem relinkedRun_once : ∃ s n id t, (System.init gateWorld).run (body sampleHost) relinkedRun = some s ∧
    n ∈ s.config.world.canvas.nodes ∧ n.nodeID = "work" ∧ n.queueTaskID = some id ∧
    nodeTasks s.config.world ⟨1⟩ ⟨103⟩ "work" "jobs" = [t] ∧ t.id = id ∧ WorkOnce sampleHost s.config.world := by
  have run : ∃ s n id t, (System.init gateWorld).run (body sampleHost) relinkedRun = some s ∧
      s.config.world.canvas.nodes.getLast? = some n ∧ n.nodeID = "work" ∧ n.queueTaskID = some id ∧
      nodeTasks s.config.world ⟨1⟩ ⟨103⟩ "work" "jobs" = [t] ∧ t.id = id :=
    ⟨_, _, _, _, rfl, rfl, rfl, rfl, rfl, rfl⟩
  obtain ⟨s, n, id, t, run, last, node, link, tasks, same⟩ := run
  exact ⟨s, n, id, t, run, List.mem_of_getLast? last, node, link, tasks, same,
    (external_work_once gateWorld_fresh (System.reach_of_run (fun _ _ _ => trivial) run)).1⟩

end Windylane
