import Windylane.Theorems.Canvas
import Windylane.Theorems.Deliveries
import Windylane.Theorems.Keys
import Windylane.Theorems.Tasks

/-! The workflow service refines the abstract executions: whatever is interleaved, crashes or fails, every call
    it makes is a step of one execution. What a process read stays good for that, because the rows it read only
    move forward; the proofs carry what was read as knowledge that lasts. -/

namespace Windylane

open Conc Script Prog

/-! ### The discipline -/

/-- The external work of a node is done: its task completed, its delivery was delivered. -/
structure Done (w : World) (n : WorkflowNodeExecution) : Prop where
  task : n.nodeType = .task → ∃ t ∈ w.tasks, n.queueTaskID = some t.id ∧ t.status = .completed
  webhook : n.nodeType = .webhook → ∃ d ∈ w.hooks.deliveries, n.webhookDeliveryID = some d.id ∧ d.status = .delivered

/-- The call marks that a stale claim is recovered. -/
def Op.recovers : Op → Bool
  | .sys (.recovery _ _) => true
  | _ => false

/-- A node of an execution is not one that is to be skipped. -/
def Unskipped (w : World) (executionID : UUID) (nodeID : String) : Prop :=
  ∀ r d m, runOf w.canvas executionID = some r → definitionOf w.canvas r.execution = some d → m ∈ d.nodeList →
    m.id = nodeID → ¬ Skippable d r.nodes m

structure ServiceInv (strict : Prop) (c : Config machine) : Prop where
  tasks : (c.world.tasks.map (·.id)).Nodup
  canvas : CanvasInv strict (Done c.world) c.world.canvas

/-- Every call is a step of one execution. With `strict`, stale claims are recovered only for nodes that are not
    to be skipped. -/
def executionRules (strict : Prop) : Discipline machine where
  inv := ServiceInv strict
  may := fun _ c o => ∀ env, CanvasStep strict (Done c.world) c.world.canvas (Op.exec env o c.world).2.canvas
  granted := fun _ c o env =>
    (∀ d ∈ deliveries c, d.status = .delivered → d ∈ (Op.exec env o c.world).2.hooks.deliveries) ∧
    (strict → ∀ executionID nodeID, o = .sys (.recovery executionID nodeID) → Unskipped c.world executionID nodeID)

theorem Done.kept {w w' : World} {n : WorkflowNodeExecution} (h : Done w n)
    (tasks : ∀ t ∈ w.tasks, t.status = .completed → ∃ t' ∈ w'.tasks, t'.id = t.id ∧ t'.status = .completed)
    (delivered : ∀ d ∈ w.hooks.deliveries, d.status = .delivered → d ∈ w'.hooks.deliveries) : Done w' n where
  task := fun ht => by
    obtain ⟨t, hm, hid, hs⟩ := h.task ht
    obtain ⟨t', hm', hid', hs'⟩ := tasks t hm hs
    exact ⟨t', hm', by rw [hid, hid'], hs'⟩
  webhook := fun ht => by
    obtain ⟨d, hm, hid, hs⟩ := h.webhook ht
    exact ⟨d, delivered d hm hs, hid, hs⟩

section Lasting
variable {strict : Prop} {pid : Nat}

/-- Work that is done stays done. -/
theorem done_lasts (n : WorkflowNodeExecution) : (executionRules strict).Lasting pid fun c => Done c.world n :=
  fun _ _ o env inv _ granted h => h.kept (fun _ ht hs => completed_kept inv.tasks ht hs env o) granted.1

theorem executionRules_sound : (executionRules strict).Sound := by
  intro pid c o env inv may granted
  refine ⟨task_ids_kept inv.tasks env o, ?_⟩
  exact ((may env).inv inv.canvas).later fun n hn => done_lasts n pid c o env inv may granted hn

/-- Something that holds of an execution, and that no step of it breaks. -/
structure Persists (P : Run → Prop) : Prop where
  keep : ∀ r x nodes, SameExecution r.execution x → Moves r.nodes nodes → P r → P ⟨x, nodes⟩

/-- The execution `x` is stored with its definition `d`, and `P` holds of its rows. -/
def Knows (x : WorkflowExecution) (d : WorkflowDefinition) (P : Run → Prop) (c : Config machine) : Prop :=
  ∃ r, runOf c.world.canvas x.id = some r ∧ SameExecution x r.execution ∧
    definitionOf c.world.canvas r.execution = some d ∧ P r

theorem knows_lasts {x : WorkflowExecution} {d : WorkflowDefinition} {P : Run → Prop} (persists : Persists P) :
    (executionRules strict).Lasting pid (Knows x d P) := by
  rintro actor c o env inv may granted ⟨r, hr, same, pinned, hP⟩
  obtain ⟨r', hr', rfl | ⟨d', -, step⟩⟩ := (may env).runOf hr
  · exact ⟨r', hr', same, definitionOf_same (may env).versions (.refl _) pinned, hP⟩
  · exact ⟨r', hr', same.trans step.same, definitionOf_same (may env).versions step.same pinned,
      persists.keep r _ _ step.same step.moves hP⟩

theorem Knows.imp {x : WorkflowExecution} {d : WorkflowDefinition} {P P' : Run → Prop} {c : Config machine}
    (h : Knows x d P c) (hP : ∀ r, P r → P' r) : Knows x d P' c := by
  obtain ⟨r, hr, same, pinned, h⟩ := h
  exact ⟨r, hr, same, pinned, hP r h⟩

/-- What is known of an execution is known under each of its later rows. -/
theorem Knows.same {x y : WorkflowExecution} {d : WorkflowDefinition} {P : Run → Prop} {c : Config machine}
    (h : Knows x d P c) (same : SameExecution y x) (hid : y.id = x.id) : Knows y d P c := by
  obtain ⟨r, hr, same', pinned, h⟩ := h
  exact ⟨r, hid ▸ hr, same.trans same', pinned, h⟩

end Lasting

/-! ### What is read -/

theorem Moved.trans {a b c : WorkflowNodeExecution} (h : Moved a b) (h' : Moved b c) : Moved a c where
  same := h.same.trans h'.same
  terminal := fun ht => by
    have := h.terminal ht
    subst this
    exact h'.terminal ht
  started := fun hs => h'.started (h.started hs)

theorem Moves.trans {a b c : List WorkflowNodeExecution} (h : Moves a b) (h' : Moves b c) : Moves a c := by
  induction h generalizing c with
  | nil => exact h'
  | cons moved _ ih =>
    cases h' with
    | cons moved' rest => exact .cons (moved.trans moved') (ih rest)

theorem Moves.refl (nodes : List WorkflowNodeExecution) : Moves nodes nodes := List.forall₂_same.2 fun n _ => .refl n

/-- A row that moved is still a row of the same node. -/
theorem Moves.mem {nodes nodes' : List WorkflowNodeExecution} (h : Moves nodes nodes') {n : WorkflowNodeExecution}
    (hn : n ∈ nodes) : ∃ n' ∈ nodes', Moved n n' := by
  induction h with
  | nil => cases hn
  | cons moved _ ih =>
    rcases List.mem_cons.1 hn with rfl | hn
    · exact ⟨_, List.mem_cons_self, moved⟩
    · obtain ⟨n', hn', moved'⟩ := ih hn
      exact ⟨n', List.mem_cons_of_mem _ hn', moved'⟩

def HasRow (node : WorkflowNodeExecution) (r : Run) : Prop := ∃ n ∈ r.nodes, SameNode n node

/-- The rows `nodes` were read of the execution, in some order, before it moved on. -/
structure Read (d : WorkflowDefinition) (strict : Prop) (nodes : List WorkflowNodeExecution) (r : Run) : Prop where
  base : ∃ base, nodes.Perm base ∧ (base.map (·.nodeID)).Nodup ∧ Moves base r.nodes
  rows : ∀ n ∈ nodes, RowOK ⟨d, strict, fun _ => True⟩ r n

section Persist
variable {d : WorkflowDefinition} {strict : Prop}

theorem persists_true : Persists fun _ => True := ⟨fun _ _ _ _ _ _ => trivial⟩

theorem Persists.and {P P' : Run → Prop} (h : Persists P) (h' : Persists P') : Persists fun r => P r ∧ P' r :=
  ⟨fun r x nodes same moves hP => ⟨h.keep r x nodes same moves hP.1, h'.keep r x nodes same moves hP.2⟩⟩

theorem persists_row (node : WorkflowNodeExecution) : Persists (HasRow node) := by
  refine ⟨fun r x nodes _ moves hP => ?_⟩
  obtain ⟨n, hn, same⟩ := hP
  obtain ⟨n', hn', moved⟩ := moves.mem hn
  exact ⟨n', hn', moved.same.symm.trans same⟩

theorem persists_runnable (p : Prop) (m : WorkflowNode) : Persists fun r => p → Runnable d r.nodes m :=
  ⟨fun _ _ _ _ moves hP hp => (hP hp).moves moves⟩

theorem persists_skippable (m : WorkflowNode) : Persists fun r => Skippable d r.nodes m :=
  ⟨fun _ _ _ _ moves hP => hP.moves moves⟩

theorem persists_read (nodes : List WorkflowNodeExecution) : Persists (Read d strict nodes) := by
  refine ⟨fun r x rows same moves hP => ?_⟩
  obtain ⟨base, perm, nodup, moved⟩ := hP.base
  exact ⟨⟨base, perm, nodup, moved.trans moves⟩, fun n hn => (hP.rows n hn).moves same moves⟩

theorem Read.row {nodes : List WorkflowNodeExecution} {r : Run} (h : Read d strict nodes r)
    {n : WorkflowNodeExecution} (hn : n ∈ nodes) : HasRow n r := by
  obtain ⟨base, perm, -, moved⟩ := h.base
  obtain ⟨n', hn', m⟩ := moved.mem (perm.mem_iff.1 hn)
  exact ⟨n', hn', m.same.symm⟩

/-- What readiness says of the rows that were read is true of the rows as they are. -/
theorem Read.ready {nodes : List WorkflowNodeExecution} {r : Run} (h : Read d strict nodes r) {m : WorkflowNode}
    {ready : Readiness} (hm : workflowNodeReadiness d nodes m = .ok ready) (decided : ready ≠ .waiting) :
    (ready = .runnable → Runnable d r.nodes m) ∧ (ready = .shouldSkip → Skippable d r.nodes m) := by
  obtain ⟨base, perm, nodup, moves⟩ := h.base
  have same : stateOf nodes = stateOf base := funext (stateOf_perm perm nodup)
  have hbase : workflowNodeReadiness d base m = .ok ready := by
    rw [← hm]
    have : ∀ edges count, readinessLoop d base edges count = readinessLoop d nodes edges count := by
      intro edges
      induction edges with
      | nil => exact fun _ => rfl
      | cons e rest ih => exact fun count => by simp only [readinessLoop, same, ih]
    simp only [workflowNodeReadiness, this]
  obtain ⟨run, skip⟩ := workflowNodeReadiness_spec hbase decided
  exact ⟨fun hr => (run hr).moves moves, fun hs => (skip hs).moves moves⟩

/-- When every row that was read is resolved, every row is. -/
theorem Read.resolved {nodes : List WorkflowNodeExecution} {r : Run} (h : Read d strict nodes r)
    (all : ∀ n ∈ nodes, n.status = .succeeded ∨ n.status = .skipped) :
    ∀ n ∈ r.nodes, n.status = .succeeded ∨ n.status = .skipped := by
  obtain ⟨base, perm, -, moves⟩ := h.base
  have all : ∀ n ∈ base, n.status = .succeeded ∨ n.status = .skipped := fun n hn => all n (perm.mem_iff.2 hn)
  clear perm h
  generalize r.nodes = rows at moves
  induction moves with
  | nil => exact fun n hn => by cases hn
  | @cons a b as bs moved _ ih =>
    obtain ⟨ha, has⟩ := List.forall_mem_cons.1 all
    have : b = a := moved.terminal (by rcases ha with hs | hs <;> rw [hs] <;> rfl)
    exact List.forall_mem_cons.2 ⟨this ▸ ha, ih has⟩

end Persist

/-! ### Calls -/

/-- A call that creates the external work of a node: the task with its key, or the delivery with its payload. -/
def Dispatches : Op → UUID → String → Prop
  | .task (.create t), executionID, nodeID => t.idempotencyKey = workflowTaskKey executionID nodeID
  | .hook (.createWebhookDelivery d), executionID, nodeID =>
    d.eventType = .workflowNode ∧ ∃ members, d.payload = .json (.obj members) ∧
      ("workflow_execution_id", .str executionID.text) ∈ members ∧ ("node_id", .str nodeID) ∈ members
  | _, _, _ => False

/-- A node of an execution has an active incoming edge. -/
def ActiveIncoming (w : World) (executionID : UUID) (nodeID : String) : Prop :=
  ∃ r d, runOf w.canvas executionID = some r ∧ definitionOf w.canvas r.execution = some d ∧
    ∃ e ∈ d.incoming nodeID, ActiveEdge d r.nodes e

/-- What the workflow service promises of its calls. -/
def Promise (strict : Prop) (c : Config machine) (o : Op) : Prop :=
  strict → ∀ executionID nodeID, Dispatches o executionID nodeID → ActiveIncoming c.world executionID nodeID

abbrev executionTerms (strict : Prop) (pid : Nat) : Terms machine := (executionRules strict).terms (Promise strict) pid

section Calls
variable {strict : Prop} {pid : Nat} {c : Config machine}

theorem may_frame {o : Op} (h : ∀ env, (o.run env c.world).2.canvas = c.world.canvas) :
    (executionRules strict).may pid c o := by
  intro env
  rw [Op.exec_frame (·.canvas) (h env)]
  exact .stay

theorem allowed_canvas {o : CanvasOp}
    (h : CanvasStep strict (Done c.world) c.world.canvas (o.run c.world.canvas).2) :
    (executionRules strict).may pid c (.canvas o) ∧ Promise strict c (.canvas o) := by
  refine ⟨fun env => ?_, fun _ _ _ hd => hd.elim⟩
  rcases Op.exec_world env (.canvas o) c.world with hw | hw
  · rw [hw]
    exact .stay
  · rw [hw]
    exact h

theorem allowed_read {o : CanvasOp} (h : (o.run c.world.canvas).2 = c.world.canvas) :
    (executionRules strict).may pid c (.canvas o) ∧ Promise strict c (.canvas o) :=
  allowed_canvas (by rw [h]; exact .stay)

/-- A call outside the workflow tables that dispatches nothing. -/
theorem allowed_other {o : Op} (h : ∀ env, (o.run env c.world).2.canvas = c.world.canvas)
    (hd : ∀ executionID nodeID, ¬ Dispatches o executionID nodeID) :
    (executionRules strict).may pid c o ∧ Promise strict c o :=
  ⟨may_frame h, fun _ _ _ hx => (hd _ _ hx).elim⟩

theorem allowed_sys (o : SysOp) : (executionRules strict).may pid c (.sys o) ∧ Promise strict c (.sys o) :=
  allowed_other (fun _ => rfl) fun _ _ hd => hd.elim

end Calls

/-! ### Reading -/

/-- The rows that are read are those of the execution. -/
theorem getWorkflowNodeExecutions_perm {g : Rules} {s : Canvas.Store} {orgID executionID : UUID} {r : Run}
    (hr : runOf s executionID = some r) (run : RunInv g r) (org : r.execution.orgID = orgID) :
    (Canvas.getWorkflowNodeExecutions orgID executionID s).Perm r.nodes := by
  have rows : (s.nodes.filter fun n => n.orgID = orgID && n.workflowExecutionID = executionID) = r.nodes := by
    rw [(runOf_eq_some.1 hr).2, ← List.filter_filter]
    refine List.filter_eq_self.2 fun n hn => ?_
    rw [← (runOf_eq_some.1 hr).2] at hn
    simpa using (run.owned n hn).1.trans org
  unfold Canvas.getWorkflowNodeExecutions
  rw [rows]
  exact Table.firstBy_perm (by rw [← rows]; exact List.length_filter_le _ _)

section Reading
variable {strict : Prop} {pid : Nat} {c : Config machine} {x : WorkflowExecution} {d : WorkflowDefinition} {P : Run → Prop}

theorem Knows.inv (h : Knows x d P c) (inv : ServiceInv strict c) :
    ∃ r, runOf c.world.canvas x.id = some r ∧ SameExecution x r.execution ∧
      definitionOf c.world.canvas r.execution = some d ∧ RunInv ⟨d, strict, Done c.world⟩ r ∧ P r := by
  obtain ⟨r, hr, same, pinned, hP⟩ := h
  obtain ⟨d', pinned', run⟩ := inv.canvas.runs x.id r hr
  rw [pinned] at pinned'
  cases pinned'
  exact ⟨r, hr, same, pinned, run, hP⟩

/-- The rows that are read are the rows of the execution. -/
theorem Knows.read (h : Knows x d P c) (inv : ServiceInv strict c) :
    Knows x d (fun r => P r ∧ Read d strict (Canvas.getWorkflowNodeExecutions x.orgID x.id c.world.canvas) r) c := by
  obtain ⟨r, hr, same, pinned, run, hP⟩ := h.inv inv
  refine ⟨r, hr, same, pinned, hP, ?_⟩
  have perm := getWorkflowNodeExecutions_perm hr run same.orgID
  refine ⟨⟨r.nodes, perm, run.nodeIDs, .refl _⟩, fun n hn => ?_⟩
  have ok := run.rows n (perm.mem_iff.1 hn)
  exact { ok with work := fun _ => trivial }

/-- An execution that is found is stored. -/
theorem knows_found (inv : ServiceInv strict c) (hx : x ∈ c.world.canvas.executions) :
    ∃ d, Knows x d (fun _ => True) c := by
  have hr := inv.canvas.runOf_of_mem hx
  obtain ⟨d, pinned, -⟩ := inv.canvas.runs _ _ hr
  exact ⟨d, _, hr, .refl _, pinned, trivial⟩

end Reading

end Windylane
