import Windylane.Calls
import Windylane.Theorems.Runs

/-! Creation by key. A task or an execution is looked up by its key, inserted, and looked up again when the insert is
    refused, while any number of other callers do the same and anything else happens to the tables. The unique
    constraints decide; what the callers rely on is that an entry, once stored, stays. -/

namespace Windylane

open Conc Script Prog Discipline

-- the conditions on texts are not decided here
seal trimSpace

/-! ### Entries -/

/-- What a row is unique by. -/
inductive Key where
  | task (orgID : UUID) (queue key : String)
  | execution (orgID : UUID) (key : String)
deriving DecidableEq

/-- What a row keeps for good: its key, if it has one, its id, and the fingerprint of its request. -/
structure Entry where
  key : Option Key
  id : UUID
  fingerprint : String
deriving DecidableEq

/-- A task without an idempotency key is unique by its id only. -/
def Task.entry (t : Task) : Entry where
  key := if t.idempotencyKey = "" then none else some (.task t.orgID t.queue t.idempotencyKey)
  id := t.id
  fingerprint := t.requestFingerprint

def WorkflowExecution.entry (x : WorkflowExecution) : Entry where
  key := some (.execution x.orgID x.idempotencyKey)
  id := x.id
  fingerprint := x.requestFingerprint

def World.entries (w : World) : List Entry := w.tasks.map Task.entry ++ w.canvas.executions.map WorkflowExecution.entry

/-- The unique constraints on the keys. -/
def World.Keyed (w : World) : Prop := (w.entries.filterMap Entry.key).Nodup

theorem create_cases (t : Task) (rows : List Task) :
    Tasks.create t rows = (.error .duplicateIdempotencyKey, rows) ∧ (∃ r ∈ rows, Tasks.conflicts t r = true) ∨
      (∀ r ∈ rows, Tasks.conflicts t r = false) ∧ Tasks.create t rows = (.ok (), rows ++ [Tasks.inserted t]) := by
  unfold Tasks.create
  split
  · rename_i conflict
    exact Or.inl ⟨rfl, List.any_eq_true.1 conflict⟩
  · rename_i free
    exact Or.inr ⟨by simpa using free, rfl⟩

theorem insertWorkflowExecution_cases (x : WorkflowExecution) (nodes : List WorkflowNodeExecution) (s : Canvas.Store) :
    ((Canvas.insertWorkflowExecution x nodes s).2 = s ∧ (Canvas.insertWorkflowExecution x nodes s).1 ≠ .ok true) ∨
      (∀ y ∈ s.executions, y.entry.key ≠ x.entry.key ∧ y.id ≠ x.id) ∧ Canvas.insertWorkflowExecution x nodes s =
        (.ok true, { s with executions := s.executions ++ [x], nodes := s.nodes ++ nodes }) := by
  unfold Canvas.insertWorkflowExecution
  split
  · exact Or.inl ⟨rfl, nofun⟩
  split
  · exact Or.inl ⟨rfl, nofun⟩
  split
  · exact Or.inl ⟨rfl, nofun⟩
  split
  · exact Or.inl ⟨rfl, nofun⟩
  · rename_i new free _ _
    refine Or.inr ⟨fun y hy => ⟨fun same => free ?_, fun same => new ?_⟩, rfl⟩
    · simp only [WorkflowExecution.entry, Option.some.injEq, Key.execution.injEq] at same
      exact List.any_eq_true.2 ⟨y, hy, by simp [same]⟩
    · exact List.any_eq_true.2 ⟨y, hy, by simp [same]⟩

/-- Every statement inserts a task whose key is free, or leaves the entries. -/
theorem TaskOp.run_entries (env : Env) (o : TaskOp) (rows : List Task) :
    (o.run env rows).2.map Task.entry = rows.map Task.entry ∨
      ∃ t, o = .create t ∧ (∀ r ∈ rows, Tasks.conflicts t r = false) ∧
        (o.run env rows).2 = rows ++ [Tasks.inserted t] := by
  have update : ∀ (p : Task → Bool) (f : Task → Task), (∀ r, (f r).entry = r.entry) →
      (Table.update p f rows).map Task.entry = rows.map Task.entry :=
    fun p f same => Table.map_update Task.entry same rows
  have exec : ∀ (p : Task → Bool) (f : Task → Task) (missed : Err), (∀ r, (f r).entry = r.entry) →
      (Tasks.exec p f missed rows).2.map Task.entry = rows.map Task.entry := by
    intro p f missed same
    unfold Tasks.exec
    split
    · exact update p f same
    · rfl
  cases o with
  | create t =>
    rcases create_cases t rows with ⟨run, -⟩ | ⟨free, run⟩
    · exact Or.inl (by simp only [TaskOp.run, run])
    · exact Or.inr ⟨t, rfl, free, by simp only [TaskOp.run, run]⟩
  | getByID | findByIdempotencyKey | listUndispatchedPending | listDispatchableTasks | listTasks | queueStats => exact Or.inl rfl
  | claimForProcessing orgID id workerID now =>
    simp only [TaskOp.run, Tasks.claimForProcessing]
    split
    · exact Or.inl rfl
    · exact Or.inl (update _ _ fun _ => rfl)
  | reclaimExpired => exact Or.inl (update _ _ fun _ => rfl)
  | cancel orgID id now =>
    simp only [TaskOp.run, Tasks.cancel]
    split
    · exact Or.inl (update _ _ fun _ => rfl)
    · exact Or.inl rfl
  | heartbeat | complete | fail | moveToDeadLetter | requeue | softDelete | markDispatched =>
    exact Or.inl (exec _ _ _ fun _ => rfl)

/-- Every statement inserts an execution whose key is free together with its nodes, or leaves the columns of the
    executions that are not revised. -/
theorem CanvasOp.run_executions {κ : Type} (column : WorkflowExecution → κ)
    (revised : ∀ x r, column (Canvas.revise x r) = column r)
    (cancelled : ∀ now r, column (Canvas.cancelled now r) = column r) (o : CanvasOp) (s : Canvas.Store) :
    (o.run s).2.executions.map column = s.executions.map column ∨
      ∃ x nodes, o = .insertWorkflowExecution x nodes ∧
        (∀ y ∈ s.executions, y.entry.key ≠ x.entry.key ∧ y.id ≠ x.id) ∧
        (o.run s).2 = { s with executions := s.executions ++ [x], nodes := s.nodes ++ nodes } := by
  cases o with
  | insertWorkflowExecution x nodes =>
    rcases insertWorkflowExecution_cases x nodes s with ⟨run, -⟩ | ⟨free, run⟩
    · exact Or.inl (by simp only [CanvasOp.run, run])
    · exact Or.inr ⟨x, nodes, rfl, free, by simp only [CanvasOp.run, run]⟩
  | updateWorkflowExecution x => exact Or.inl (Table.map_update column (revised x) _)
  | finalizeWorkflowExecution x expected cancelOpenNodes =>
    simp only [CanvasOp.run, Canvas.finalizeWorkflowExecution]
    split
    · exact Or.inl rfl
    · exact Or.inl (Table.map_update column (revised x) _)
  | cancelWorkflowExecution orgID workflowID executionID now =>
    simp only [CanvasOp.run, Canvas.cancelWorkflowExecution]
    split
    · exact Or.inl rfl
    split
    · exact Or.inl rfl
    · exact Or.inl (Table.map_update column (cancelled now) _)
  | createWorkflow workflow =>
    simp only [CanvasOp.run, Canvas.createWorkflow]
    split <;> exact Or.inl rfl
  | updateWorkflow workflow =>
    simp only [CanvasOp.run, Canvas.updateWorkflow]
    split <;> [exact Or.inl rfl; split <;> exact Or.inl rfl]
  | softDeleteWorkflow orgID id now =>
    simp only [CanvasOp.run, Canvas.softDeleteWorkflow]
    split <;> exact Or.inl rfl
  | publishWorkflow expected publishedAt versionID =>
    simp only [CanvasOp.run, Canvas.publishWorkflow]
    split
    · exact Or.inl rfl
    split
    · exact Or.inl rfl
    split
    · exact Or.inl rfl
    split <;> exact Or.inl rfl
  | createWorkflowVersion version =>
    simp only [CanvasOp.run, Canvas.createWorkflowVersion]
    split
    · exact Or.inl rfl
    split
    · exact Or.inl rfl
    split <;> exact Or.inl rfl
  | claimWorkflowNode orgID executionID nodeID now =>
    simp only [CanvasOp.run, Canvas.claimWorkflowNode]
    split <;> exact Or.inl rfl
  | _ => exact Or.inl rfl

theorem CanvasOp.run_entries (o : CanvasOp) (s : Canvas.Store) :
    (o.run s).2.executions.map WorkflowExecution.entry = s.executions.map WorkflowExecution.entry ∨
      ∃ x nodes, o = .insertWorkflowExecution x nodes ∧
        (∀ y ∈ s.executions, y.entry.key ≠ x.entry.key ∧ y.id ≠ x.id) ∧
        (o.run s).2 = { s with executions := s.executions ++ [x], nodes := s.nodes ++ nodes } :=
  o.run_executions WorkflowExecution.entry (fun _ _ => rfl) (fun _ _ => rfl) s

/-- The entry that a call inserts. -/
def inserts : Op → Option Entry
  | .task (.create t) => some t.entry
  | .canvas (.insertWorkflowExecution x _) => some x.entry
  | _ => none

/-- The entry that a call inserted, by its answer. -/
def creates : (o : Op) → machine.Answer o → Option Entry
  | .task (.create t), .ok _ => some t.entry
  | .canvas (.insertWorkflowExecution x _), .ok true => some x.entry
  | _, _ => none

/-- The key of the entry is free. -/
def World.Free (w : World) (e : Entry) : Prop := ∀ k, e.key = some k → ∀ q ∈ w.entries, q.key ≠ some k

theorem free_task {w : World} {t : Task} (free : ∀ r ∈ w.tasks, Tasks.conflicts t r = false) : w.Free t.entry := by
  intro k hk q hq same
  simp only [Task.entry] at hk
  split at hk
  · cases hk
  · rename_i named
    cases hk
    rcases List.mem_append.1 hq with hq | hq
    · obtain ⟨r, hr, rfl⟩ := List.mem_map.1 hq
      have := free r hr
      simp only [Task.entry] at same
      split at same
      · cases same
      · simp only [Option.some.injEq, Key.task.injEq] at same
        simp [Tasks.conflicts, same, named] at this
    · obtain ⟨x, -, rfl⟩ := List.mem_map.1 hq
      cases same

theorem free_execution {w : World} {x : WorkflowExecution}
    (free : ∀ y ∈ w.canvas.executions, y.entry.key ≠ x.entry.key) : w.Free x.entry := by
  intro k hk q hq same
  rcases List.mem_append.1 hq with hq | hq
  · obtain ⟨r, hr, rfl⟩ := List.mem_map.1 hq
    cases hk
    simp only [Task.entry] at same
    split at same <;> cases same
  · obtain ⟨y, hy, rfl⟩ := List.mem_map.1 hq
    exact free y hy (same.trans hk.symm)

/-- A call inserts one entry whose key is free, or leaves the entries. -/
theorem entries_step (env : Env) (o : Op) (w : World) : (Op.exec env o w).2.entries = w.entries ∨
    ∃ e, inserts o = some e ∧ w.Free e ∧ (Op.exec env o w).2.entries.Perm (e :: w.entries) := by
  rcases o.exec_world env w with hw | hw
  · exact Or.inl (by rw [hw])
  rw [hw]
  cases o with
  | sys | worker | broker | hook => exact Or.inl rfl
  | task o =>
    rcases o.run_entries env w.tasks with same | ⟨t, rfl, free, run⟩
    · exact Or.inl (by simp only [World.entries, Op.run, same])
    · refine Or.inr ⟨t.entry, rfl, free_task free, ?_⟩
      have added : (Op.run env (.task (.create t)) w).2.entries =
          w.tasks.map Task.entry ++ t.entry :: w.canvas.executions.map WorkflowExecution.entry := by
        simp only [World.entries, Op.run, run, List.map_append, List.map_cons, List.map_nil, List.append_assoc]
        rfl
      rw [added]
      exact List.perm_middle
  | canvas o =>
    rcases o.run_entries w.canvas with same | ⟨x, nodes, rfl, free, run⟩
    · exact Or.inl (by simp only [World.entries, Op.run, same])
    · refine Or.inr ⟨x.entry, rfl, free_execution fun y hy => (free y hy).1, ?_⟩
      have added : (Op.run env (.canvas (.insertWorkflowExecution x nodes)) w).2.entries = w.entries ++ [x.entry] := by
        simp only [World.entries, Op.run, run, List.map_append, List.map_cons, List.map_nil, List.append_assoc]
      rw [added]
      exact List.perm_append_singleton _ _

/-- An insert that is answered inserted the entry. -/
theorem created_entry {env : Env} {o : Op} {w : World} {e : Entry} (created : creates o (Op.exec env o w).1 = some e) :
    w.Free e ∧ (Op.exec env o w).2.entries.Perm (e :: w.entries) := by
  have inserted : inserts o = some e ∧ (Op.exec env o w).2.entries.length ≠ w.entries.length := by
    unfold creates at created
    split at created
    · rename_i t u ok
      cases created
      have run := Op.exec_ok ok
      rw [run] at ok ⊢
      simp only [Op.run, TaskOp.run] at ok ⊢
      rcases create_cases t w.tasks with ⟨create, -⟩ | ⟨-, create⟩
      · rw [create] at ok
        cases ok
      · exact ⟨rfl, by simp [World.entries, create]⟩
    · rename_i x nodes ok
      cases created
      have run := Op.exec_ok ok
      rw [run] at ok ⊢
      simp only [Op.run, CanvasOp.run] at ok ⊢
      rcases insertWorkflowExecution_cases x nodes w.canvas with ⟨-, refused⟩ | ⟨-, insert⟩
      · exact (refused ok).elim
      · exact ⟨rfl, by simp [World.entries, insert]⟩
    · cases created
  rcases entries_step env o w with same | ⟨e', inserts', free, perm⟩
  · exact (inserted.2 (congrArg List.length same)).elim
  · cases inserted.1.symm.trans inserts'
    exact ⟨free, perm⟩

/-! ### The discipline -/

/-- The insert meets every constraint but the one on the key: ids that are free, and what it refers to is there. -/
def admits (w : World) : Op → Bool
  | .task (.create t) => !(w.tasks.any fun r => r.id = t.id)
  | .canvas (.insertWorkflowExecution x nodes) =>
    !(w.canvas.executions.any fun y => y.id = x.id) &&
    (w.canvas.versions.any fun v => v.orgID = x.orgID && v.workflowID = x.workflowID && v.id = x.workflowVersionID &&
      v.version = x.workflowVersion) &&
    (decide ((w.canvas.nodes ++ nodes).map (·.id)).Nodup && decide (nodes.map (·.nodeID)).Nodup &&
      nodes.all fun n => n.nodeType.valid && n.orgID = x.orgID && n.workflowExecutionID = x.id)
  | _ => true

structure CreationInv (c : Config machine) : Prop where
  keyed : c.world.Keyed
  /-- What the trace shows to be created is stored, and nothing was created twice. -/
  stored : ∀ e ∈ c.trace, ∀ entry, creates e.op e.answer = some entry → entry ∈ c.world.entries
  once : (c.trace.filterMap fun e => (creates e.op e.answer).bind Entry.key).Nodup

/-- Anything may be called. With `calm`, nothing fails but by the constraints on the keys. -/
def creationRules (calm : Prop) : Discipline machine where
  inv := CreationInv
  may := fun _ _ _ => True
  granted := fun _ c o env => calm → env.fault = none ∧ admits c.world o = true

/-- An entry stays. -/
theorem entry_kept {e : Entry} {w : World} (he : e ∈ w.entries) (env : Env) (o : Op) :
    e ∈ (Op.exec env o w).2.entries := by
  rcases entries_step env o w with same | ⟨e', -, -, perm⟩
  · exact same ▸ he
  · exact perm.mem_iff.2 (List.mem_cons_of_mem _ he)

theorem World.Keyed.step {w : World} (keyed : w.Keyed) (env : Env) (o : Op) : (Op.exec env o w).2.Keyed := by
  unfold World.Keyed
  rcases entries_step env o w with same | ⟨e, -, free, perm⟩
  · rw [same]
    exact keyed
  · rw [(perm.filterMap Entry.key).nodup_iff, List.filterMap_cons]
    cases hk : e.key with
    | none => exact keyed
    | some k =>
      refine List.nodup_cons.2 ⟨fun hm => ?_, keyed⟩
      obtain ⟨q, hq, same⟩ := List.mem_filterMap.1 hm
      exact free k hk q hq same

theorem creationRules_sound (calm : Prop) : (creationRules calm).Sound := by
  intro pid c o env inv _ _
  refine ⟨inv.keyed.step env o, fun e he entry created => ?_, ?_⟩
  · rcases List.mem_cons.1 he with rfl | he
    · exact (created_entry created).2.mem_iff.2 List.mem_cons_self
    · exact entry_kept (inv.stored e he entry created) env o
  · rw [Config.after_trace, List.filterMap_cons]
    split
    · exact inv.once
    · rename_i k created
      refine List.nodup_cons.2 ⟨fun hm => ?_, inv.once⟩
      obtain ⟨entry, created, hk⟩ := Option.bind_eq_some_iff.1 created
      obtain ⟨e, he, same⟩ := List.mem_filterMap.1 hm
      obtain ⟨earlier, before, hk'⟩ := Option.bind_eq_some_iff.1 same
      exact (created_entry created).1 k hk earlier (inv.stored e he earlier before) hk'

/-! ### Callers -/

/-- A caller creates a task or an execution, or runs any other program. -/
inductive Caller where
  | task (input : CreateTaskInput)
  | execution (x : WorkflowExecution) (nodes : List WorkflowNodeExecution)
  | other (p : Script Unit)

inductive Created where
  | task (result : TaskResult)
  | execution (x : WorkflowExecution) (reused : Bool)
  | other

def Caller.serve (h : Host) : Caller → Script Created
  | .task input => do
    let result ← createTask h input
    pure (.task result)
  | .execution x nodes => do
    let (x, reused) ← createWorkflowExecution x nodes
    pure (.execution x reused)
  | .other p => do
    p
    pure .other

/-- The key and the fingerprint that a caller asks with. -/
def Caller.asks (h : Host) : Caller → Option (Key × String)
  | .task input =>
    if input.idempotencyKey = "" then none
    else (requestFingerprint h input).map fun (fingerprint, _) =>
      (.task input.orgID input.queue input.idempotencyKey, fingerprint)
  | .execution x _ => some (.execution x.orgID x.idempotencyKey, x.requestFingerprint)
  | .other _ => none

/-- The id of the row that a caller is answered, and whether the row is reported as reused. -/
def Created.row : Except Err Created → Option (UUID × Bool)
  | .ok (.task result) => result.task.map fun t => (t.id, result.reused)
  | .ok (.execution x reused) => some (x.id, reused)
  | _ => none

/-- The caller is answered that the key was used for another request. -/
def Created.conflict : Except Err Created → Prop
  | .ok (.task result) => result = ⟨none, false, some .idempotencyConflict⟩
  | .error e => e = .workflowExecutionIdempotencyConflict
  | _ => False

/-- Process `pid` inserted the entry. -/
def CreatedBy (pid : Nat) (entry : Entry) (c : Config machine) : Prop :=
  ∃ e ∈ c.trace, e.pid = pid ∧ creates e.op e.answer = some entry

/-- What a caller is answered: the row of its key with its own fingerprint, or, unless something failed, a conflict
    with the fingerprint of that row. -/
structure Answers (calm : Prop) (pid : Nat) (k : Key) (fingerprint : String) (r : Except Err Created)
    (c : Config machine) : Prop where
  row : ∀ id reused, Created.row r = some (id, reused) → (⟨some k, id, fingerprint⟩ : Entry) ∈ c.world.entries ∧
    (reused = false → CreatedBy pid ⟨some k, id, fingerprint⟩ c)
  settled : calm → Created.row r = none → Created.conflict r

/-- Calls that write nothing. -/
def Op.reads : Op → Bool
  | .sys _ | .task (.findByIdempotencyKey _ _ _) | .canvas (.getWorkflowExecutionByIdempotency _ _) => true
  | _ => false

/-- What a caller promises of its calls: to read, to insert what it asks for, and to do anything else only when that
    is stored. -/
def Promises (k : Key) (fingerprint : String) (c : Config machine) (o : Op) : Prop :=
  o.reads = true ∨ (∃ e, inserts o = some e ∧ e.key = some k ∧ e.fingerprint = fingerprint) ∨
    ∃ e ∈ c.world.entries, e.key = some k ∧ e.fingerprint = fingerprint

/-! ### Creating a task -/

/-- What happens outside the stores cannot fail. -/
def SysAnswers : (o : Op) → machine.Answer o → Prop
  | .sys _, r => ∃ a, r = .ok a
  | _, _ => True

theorem sysAnswers (env : Env) (o : Op) (w : World) : SysAnswers o (Op.exec env o w).1 := by
  cases o with
  | sys o => exact ⟨o.run env, by rw [Op.exec_sys]⟩
  | _ => trivial

/-- The program returns. -/
def Returns {α : Type} (r : Except Err α) : Prop := ∃ a, r = .ok a

theorem sys_ends {α : Type} {o : SysOp} {f : o.Resp → Script α} {φ : Except Err α → Prop}
    (hf : ∀ a, (f a).Ends SysAnswers φ) : (Script.sys o >>= f).Ends SysAnswers φ := by
  rintro r ⟨a, rfl⟩
  exact hf a

theorem createDeliveries_ends (h : Host) (eventType : WebhookEventType) (task : Task) (payload : Json) (now : Time)
    (endpoints : List WebhookEndpoint) :
    (createDeliveries h eventType task payload now endpoints).Ends SysAnswers Returns := by
  induction endpoints with
  | nil => exact ⟨_, rfl⟩
  | cons endpoint rest ih =>
    refine sys_ends fun id r _ => ?_
    cases r with
    | error e => exact ih.bind (fun _ _ => ⟨_, rfl⟩) fun e he => he
    | ok u => exact sys_ends fun _ => ih

theorem publishTaskEvent_ends (h : Host) (eventType : WebhookEventType) (task : Task) :
    (publishTaskEvent h eventType task).Ends SysAnswers Returns := by
  unfold publishTaskEvent
  split
  · intro r _
    cases r with
    | error e => exact ⟨_, rfl⟩
    | ok endpoints =>
      simp only [Prog.bind]
      split
      · exact ⟨_, rfl⟩
      · exact sys_ends fun now => sys_ends fun id => createDeliveries_ends h _ _ _ _ _
  · exact ⟨_, rfl⟩

/-- Whatever becomes of the message, a created task is answered. -/
theorem dispatchCreated_ends (h : Host) (task : Task) :
    (dispatchCreated h task).Ends SysAnswers fun r => ∃ err, r = .ok ⟨some task, false, err⟩ := by
  refine sys_ends fun _ => Ends.bind (publishTaskEvent_ends h _ _) (fun _ _ => sys_ends fun now => ?_) fun e he => ?_
  · split
    · refine sys_ends fun later r _ => ?_
      cases r with
      | error e => exact ⟨_, rfl⟩
      | ok u =>
        intro r _
        cases r <;> exact ⟨_, rfl⟩
    · intro r _
      cases r with
      | error e => exact ⟨_, rfl⟩
      | ok u =>
        intro r _
        cases r <;> exact ⟨_, rfl⟩
  · obtain ⟨a, ha⟩ := he
    cases ha

section Walk
variable {calm : Prop} {pid : Nat} {c : Config machine} {own : Config machine → Op → Prop} {k : Key} {fingerprint : String}

theorem stored_lasts (e : Entry) : (creationRules calm).Lasting pid fun c => e ∈ c.world.entries :=
  fun _ _ o env _ _ _ he => entry_kept he env o

theorem createdBy_lasts (actor : Nat) (e : Entry) : (creationRules calm).Lasting pid (CreatedBy actor e) := by
  rintro _ c o env - - - ⟨ev, hev, his⟩
  exact ⟨ev, List.mem_cons_of_mem _ hev, his⟩

/-- A key that is taken stays taken. -/
theorem taken_lasts : (creationRules calm).Lasting pid fun c => calm → ∃ q ∈ c.world.entries, q.key = some k := by
  intro _ c o env _ _ _ taken quiet
  obtain ⟨q, hq, key⟩ := taken quiet
  exact ⟨q, entry_kept hq env o, key⟩

/-- An answer stays right. -/
theorem Answers.stable {r : Except Err Created} {c' : Config machine} (h : Answers calm pid k fingerprint r c)
    (later : ((creationRules calm).terms own pid).rely c c') : Answers calm pid k fingerprint r c' where
  row := fun id reused hrow => by
    obtain ⟨stored, created⟩ := h.row id reused hrow
    exact ⟨(stored_lasts _).stable later stored, fun fresh => (createdBy_lasts pid _).stable later (created fresh)⟩
  settled := h.settled

/-- A row with the key was found. -/
theorem Answers.found {id : UUID} {existing : String} (stored : (⟨some k, id, existing⟩ : Entry) ∈ c.world.entries)
    {r : Except Err Created}
    (same : existing = fingerprint → Created.row r = some (id, true))
    (other : existing ≠ fingerprint → Created.row r = none ∧ Created.conflict r) : Answers calm pid k fingerprint r c := by
  by_cases he : existing = fingerprint
  · subst he
    refine ⟨fun id' reused hrow => ?_, fun _ hrow => ?_⟩
    · cases (same rfl).symm.trans hrow
      exact ⟨stored, nofun⟩
    · cases (same rfl).symm.trans hrow
  · obtain ⟨none, conflict⟩ := other he
    refine ⟨fun id' reused hrow => ?_, fun _ _ => conflict⟩
    cases none.symm.trans hrow

/-- Nothing is answered, and something failed. -/
theorem Answers.failed {r : Except Err Created} (none : Created.row r = none) (disturbed : ¬ calm) :
    Answers calm pid k fingerprint r c :=
  ⟨fun id reused hrow => (by cases none.symm.trans hrow), fun quiet => (disturbed quiet).elim⟩

section Task
variable {orgID : UUID} {queue key : String}

theorem findByIdempotencyKey_entry {env : Env} {w : World} {t : Task}
    (ok : (Op.exec env (.task (.findByIdempotencyKey orgID queue key)) w).1 = .ok t) :
    (⟨some (.task orgID queue key), t.id, t.requestFingerprint⟩ : Entry) ∈ w.entries := by
  have run := Op.exec_ok ok
  rw [run] at ok
  simp only [Op.run, TaskOp.run, Tasks.findByIdempotencyKey] at ok
  split at ok
  · rename_i r found
    cases ok
    have matched := List.find?_some found
    simp only [Bool.and_eq_true, decide_eq_true_eq] at matched
    obtain ⟨⟨⟨rfl, rfl⟩, named⟩, rfl⟩ := matched
    have entry : t.entry = ⟨some (.task t.orgID t.queue t.idempotencyKey), t.id, t.requestFingerprint⟩ := by
      simp only [Task.entry, if_neg named]
    rw [← entry]
    exact List.mem_append_left _ (List.mem_map_of_mem (List.mem_of_find?_eq_some found))
  · cases ok

theorem findByIdempotencyKey_error {env : Env} {w : World} {e : Err} (calm : env.fault = none)
    (failed : (Op.exec env (.task (.findByIdempotencyKey orgID queue key)) w).1 = .error e) :
    e = .taskNotFound ∧ (key ≠ "" → ∀ q ∈ w.entries, q.key ≠ some (.task orgID queue key)) := by
  simp only [Op.exec, calm, Op.run, TaskOp.run, Tasks.findByIdempotencyKey] at failed
  split at failed
  · cases failed
  · rename_i missed
    cases failed
    refine ⟨rfl, fun named q hq same => ?_⟩
    rcases List.mem_append.1 hq with hq | hq
    · obtain ⟨r, hr, rfl⟩ := List.mem_map.1 hq
      simp only [Task.entry] at same
      split at same
      · cases same
      · cases same
        exact List.find?_eq_none.1 missed r hr (by simp [named])
    · obtain ⟨x, -, rfl⟩ := List.mem_map.1 hq
      cases same

theorem reuseTask_answers {t : Task} (stored : (⟨some k, t.id, t.requestFingerprint⟩ : Entry) ∈ c.world.entries) :
    Answers calm pid k fingerprint (.ok (.task (reuseTask t fingerprint))) c := by
  refine .found stored (fun same => ?_) fun other => ?_
  · rw [reuseTask, if_neg (not_not.2 same)]
    rfl
  · rw [reuseTask, if_pos other]
    exact ⟨rfl, rfl⟩

theorem requestedTask_entry {input : CreateTaskInput} (named : input.idempotencyKey ≠ "") (fingerprint : String)
    (payload : RawMessage) (id : UUID) (now : Time) : (requestedTask input fingerprint payload id now).entry =
      ⟨some (.task input.orgID input.queue input.idempotencyKey), id, fingerprint⟩ := by
  unfold requestedTask
  split <;> simp [Task.entry, newTask, named]

/-- Without faults an insert with a free id fails only by its key. -/
theorem create_error {env : Env} {w : World} {t : Task} {e : Err} (calm : env.fault = none)
    (admitted : admits w (.task (.create t)) = true) (failed : (Op.exec env (.task (.create t)) w).1 = .error e) :
    e = .duplicateIdempotencyKey ∧ ∃ q ∈ w.entries, q.key = some (.task t.orgID t.queue t.idempotencyKey) := by
  simp only [Op.exec, calm, Op.run, TaskOp.run] at failed
  rcases create_cases t w.tasks with ⟨run, r, hr, conflict⟩ | ⟨-, run⟩
  · rw [run] at failed
    cases failed
    have other : r.id ≠ t.id := by
      simp only [admits, Bool.not_eq_true', List.any_eq_false, decide_eq_true_eq] at admitted
      exact admitted r hr
    simp only [Tasks.conflicts, Bool.or_eq_true, Bool.and_eq_true, decide_eq_true_eq, other, false_or] at conflict
    obtain ⟨⟨⟨named, org⟩, queue⟩, key⟩ := conflict
    refine ⟨rfl, r.entry, List.mem_append_left _ (List.mem_map_of_mem hr), ?_⟩
    simp only [Task.entry, org, queue, key, if_neg named]
  · rw [run] at failed
    cases failed

theorem wp_sys_read {α : Type} {o : SysOp} {f : o.Resp → Script α} {Q : Except Err α → Config machine → Prop}
    {P : Config machine → Prop} (hP : (creationRules calm).Lasting pid P) (hc : P c)
    (hf : ∀ a c', P c' → wp ((creationRules calm).terms (Promises k fingerprint) pid) (f a) Q c') :
    wp ((creationRules calm).terms (Promises k fingerprint) pid) (Script.sys o >>= f) Q c := by
  refine wp_call_lasting hP hc (fun _ _ _ => ⟨trivial, Or.inl rfl⟩) fun c' env _ _ _ _ known => ?_
  have := hf (o.run env) _ known
  simpa using this

theorem createTask_wp (h : Host) {input : CreateTaskInput} {payload : RawMessage}
    (asked : requestFingerprint h input = some (fingerprint, payload)) (named : input.idempotencyKey ≠ "")
    (hk : k = .task input.orgID input.queue input.idempotencyKey) :
    wp ((creationRules calm).terms (Promises k fingerprint) pid) (createTask h input)
      (fun r c' => Answers calm pid k fingerprint (r.map Created.task) c') c := by
  let find : Op := .task (.findByIdempotencyKey input.orgID input.queue input.idempotencyKey)
  have reads : ∀ c' : Config machine, (creationRules calm).may pid c' find ∧ Promises k fingerprint c' find :=
    fun _ => ⟨trivial, Or.inl rfl⟩
  unfold createTask
  rw [asked]
  refine wp_attempt (lasting_const True) trivial (fun c' _ _ => reads c') fun c' env _ _ granted _ _ => ?_
  cases found : (Op.exec env find c'.world).1 with
  | ok existing =>
    have stored := entry_kept (hk ▸ findByIdempotencyKey_entry found) env find
    exact fun d later _ => (reuseTask_answers stored).stable later
  | error e =>
    have disturbed : e ≠ .taskNotFound → ¬ calm := fun other quiet =>
      other (findByIdempotencyKey_error (granted quiet).1 found).1
    split
    · rename_i same
      cases same
    · refine wp_sys_read (lasting_const True) trivial fun now _ _ => ?_
      refine wp_sys_read (lasting_const True) trivial fun id _ _ => ?_
      have entry : (requestedTask input fingerprint payload id now).entry = ⟨some k, id, fingerprint⟩ :=
        hk ▸ requestedTask_entry named fingerprint payload id now
      generalize requestedTask input fingerprint payload id now = task at entry ⊢
      have inserting : ∀ c' : Config machine, (creationRules calm).may pid c' (.task (.create task)) ∧
          Promises k fingerprint c' (.task (.create task)) :=
        fun _ => ⟨trivial, Or.inr (Or.inl ⟨task.entry, rfl, by rw [entry], by rw [entry]⟩)⟩
      refine wp_attempt (lasting_const True) trivial (fun c' _ _ => inserting c') fun c' env _ _ granted _ _ => ?_
      cases made : (Op.exec env (.task (.create task)) c'.world).1 with
      | ok u =>
        have created : creates (.task (.create task)) (Op.exec env (.task (.create task)) c'.world).1 =
            some ⟨some k, id, fingerprint⟩ := by
          rw [made]
          exact congrArg some entry
        have known : (⟨some k, id, fingerprint⟩ : Entry) ∈ (c'.after pid env (.task (.create task))).world.entries ∧
            CreatedBy pid ⟨some k, id, fingerprint⟩ (c'.after pid env (.task (.create task))) :=
          ⟨(created_entry created).2.mem_iff.2 List.mem_cons_self, _, List.mem_cons_self, rfl, created⟩
        refine wp_imp ?_ (wp_ends ((stored_lasts _).and (createdBy_lasts pid _))
          (fun _ _ _ known => ⟨trivial, Or.inr (Or.inr ⟨_, known.1, rfl, rfl⟩)⟩)
          (fun d o env _ => sysAnswers env o d.world) known (dispatchCreated_ends h task))
        rintro _ d - ⟨known, err, rfl⟩
        refine ⟨fun id' reused row => ?_, nofun⟩
        cases row
        rw [show task.id = id from congrArg Entry.id entry]
        exact ⟨known.1, fun _ => known.2⟩
      | error e =>
        have refused : calm → e = .duplicateIdempotencyKey ∧ ∃ q ∈ c'.world.entries, q.key = some k := by
          intro quiet
          obtain ⟨same, q, hq, key⟩ := create_error (granted quiet).1 (granted quiet).2 made
          have mine := congrArg Entry.key entry
          simp only [Task.entry] at mine
          split at mine
          · cases mine
          · exact ⟨same, q, hq, key.trans mine⟩
        split
        · rename_i same
          cases same
        · have taken : calm → ∃ q ∈ (c'.after pid env (.task (.create task))).world.entries, q.key = some k := by
            intro quiet
            obtain ⟨-, q, hq, key⟩ := refused quiet
            exact ⟨q, entry_kept hq env _, key⟩
          refine wp_attempt taken_lasts taken (fun c' _ _ => reads c') fun c' env _ taken granted _ _ => ?_
          cases found : (Op.exec env find c'.world).1 with
          | ok existing =>
            have stored := entry_kept (hk ▸ findByIdempotencyKey_entry found) env find
            exact fun d later _ => (reuseTask_answers stored).stable later
          | error e =>
            refine fun d _ _ => .failed rfl fun quiet => ?_
            obtain ⟨q, hq, key⟩ := taken quiet
            exact (findByIdempotencyKey_error (granted quiet).1 found).2 named q hq (hk ▸ key)
        · rename_i other same
          cases same
          exact fun d _ _ => .failed rfl fun quiet => other ((refused quiet).1 ▸ rfl)
    · rename_i other same
      cases same
      exact fun d _ _ => .failed rfl (disturbed fun same => other (same ▸ rfl))

end Task

/-! ### Creating an execution -/

section Execution
variable {orgID : UUID} {key : String} {x : WorkflowExecution} {nodes : List WorkflowNodeExecution}

theorem getByIdempotency_entry {env : Env} {w : World} {y : WorkflowExecution}
    (ok : (Op.exec env (.canvas (.getWorkflowExecutionByIdempotency orgID key)) w).1 = .ok y) :
    (⟨some (.execution orgID key), y.id, y.requestFingerprint⟩ : Entry) ∈ w.entries := by
  have run := Op.exec_ok ok
  rw [run] at ok
  simp only [Op.run, CanvasOp.run, Canvas.getWorkflowExecutionByIdempotency] at ok
  split at ok
  · rename_i r found
    cases ok
    have matched := List.find?_some found
    simp only [Bool.and_eq_true, decide_eq_true_eq] at matched
    obtain ⟨rfl, rfl⟩ := matched
    exact List.mem_append_right _ (List.mem_map_of_mem (List.mem_of_find?_eq_some found))
  · cases ok

theorem getByIdempotency_error {env : Env} {w : World} {e : Err} (calm : env.fault = none)
    (failed : (Op.exec env (.canvas (.getWorkflowExecutionByIdempotency orgID key)) w).1 = .error e) :
    e = .workflowExecutionNotFound ∧ ∀ q ∈ w.entries, q.key ≠ some (.execution orgID key) := by
  simp only [Op.exec, calm, Op.run, CanvasOp.run, Canvas.getWorkflowExecutionByIdempotency] at failed
  split at failed
  · cases failed
  · rename_i missed
    cases failed
    refine ⟨rfl, fun q hq same => ?_⟩
    rcases List.mem_append.1 hq with hq | hq
    · obtain ⟨r, -, rfl⟩ := List.mem_map.1 hq
      simp only [Task.entry] at same
      split at same <;> cases same
    · obtain ⟨y, hy, rfl⟩ := List.mem_map.1 hq
      cases same
      exact List.find?_eq_none.1 missed y hy (by simp)

/-- Without faults an insert that meets the other constraints fails only by its key. -/
theorem insert_answer (env : Env) {w : World} (calm : env.fault = none)
    (admitted : admits w (.canvas (.insertWorkflowExecution x nodes)) = true) :
    ∃ inserted, (Op.exec env (.canvas (.insertWorkflowExecution x nodes)) w).1 = .ok inserted ∧
      (inserted = false → ∃ q ∈ w.entries, q.key = some (.execution x.orgID x.idempotencyKey)) := by
  simp only [admits] at admitted
  obtain ⟨present, rows⟩ := Bool.and_eq_true_iff.1 admitted
  obtain ⟨free, versioned⟩ := Bool.and_eq_true_iff.1 present
  rw [Bool.not_eq_true'] at free
  simp only [Op.exec, calm, Op.run, CanvasOp.run, Canvas.insertWorkflowExecution, free, versioned, rows]
  by_cases taken : w.canvas.executions.any (fun y => decide (y.orgID = x.orgID) &&
      decide (y.idempotencyKey = x.idempotencyKey)) = true
  · refine ⟨false, by simp [taken], fun _ => ?_⟩
    obtain ⟨y, hy, same⟩ := List.any_eq_true.1 taken
    simp only [Bool.and_eq_true, decide_eq_true_eq] at same
    exact ⟨y.entry, List.mem_append_right _ (List.mem_map_of_mem hy), by simp [WorkflowExecution.entry, same]⟩
  · exact ⟨true, by simp [taken], Bool.noConfusion⟩

theorem reuseExecution_wp {y : WorkflowExecution}
    (stored : (⟨some k, y.id, y.requestFingerprint⟩ : Entry) ∈ c.world.entries) :
    wp ((creationRules calm).terms own pid) (reuseExecution y fingerprint)
      (fun r c' => Answers calm pid k fingerprint (r.map fun a => Created.execution a.1 a.2) c') c := by
  unfold reuseExecution
  split
  · rename_i other
    have answer : Answers calm pid k fingerprint (.error .workflowExecutionIdempotencyConflict) c :=
      .found stored (fun same => (other same).elim) fun _ => ⟨rfl, rfl⟩
    exact fun d later _ => answer.stable later
  · rename_i same
    have answer : Answers calm pid k fingerprint (.ok (.execution y true)) c :=
      .found stored (fun _ => rfl) fun other => (other (not_not.1 same)).elim
    exact fun d later _ => answer.stable later

theorem createWorkflowExecution_once (hk : k = .execution x.orgID x.idempotencyKey)
    (asked : fingerprint = x.requestFingerprint) :
    wp ((creationRules calm).terms (Promises k fingerprint) pid) (createWorkflowExecution x nodes)
      (fun r c' => Answers calm pid k fingerprint (r.map fun a => Created.execution a.1 a.2) c') c := by
  let find : Op := .canvas (.getWorkflowExecutionByIdempotency x.orgID x.idempotencyKey)
  let insert : Op := .canvas (.insertWorkflowExecution x nodes)
  have entry : x.entry = ⟨some k, x.id, fingerprint⟩ := by rw [hk, asked]; rfl
  have reads : ∀ c' : Config machine, (creationRules calm).may pid c' find ∧ Promises k fingerprint c' find :=
    fun _ => ⟨trivial, Or.inl rfl⟩
  have inserting : ∀ c' : Config machine, (creationRules calm).may pid c' insert ∧ Promises k fingerprint c' insert :=
    fun _ => ⟨trivial, Or.inr (Or.inl ⟨x.entry, rfl, by rw [entry], by rw [entry]⟩)⟩
  unfold createWorkflowExecution
  refine wp_attempt (lasting_const True) trivial (fun c' _ _ => reads c') fun c' env _ _ granted _ _ => ?_
  cases found : (Op.exec env find c'.world).1 with
  | ok existing =>
    exact asked ▸ reuseExecution_wp (entry_kept (hk ▸ getByIdempotency_entry found) env find)
  | error e =>
    split
    · rename_i same
      cases same
    · refine wp_call_lasting (lasting_const True) trivial (fun c' _ _ => inserting c') fun c' env _ _ granted _ _ => ?_
      cases made : (Op.exec env insert c'.world).1 with
      | error e =>
        refine fun d _ _ => .failed rfl fun quiet => ?_
        obtain ⟨inserted, ok, -⟩ := insert_answer env (granted quiet).1 (granted quiet).2
        cases made.symm.trans ok
      | ok inserted =>
        cases inserted with
        | true =>
          have created : creates insert (Op.exec env insert c'.world).1 = some ⟨some k, x.id, fingerprint⟩ := by
            rw [made]
            exact congrArg some entry
          have answer : Answers calm pid k fingerprint (.ok (.execution x false)) (c'.after pid env insert) := by
            refine ⟨fun id reused row => ?_, nofun⟩
            cases row
            exact ⟨(created_entry created).2.mem_iff.2 List.mem_cons_self, fun _ => ⟨_, List.mem_cons_self, rfl, created⟩⟩
          exact fun d later _ => answer.stable later
        | false =>
          have taken : calm → ∃ q ∈ (c'.after pid env insert).world.entries, q.key = some k := by
            intro quiet
            obtain ⟨inserted, ok, taken⟩ := insert_answer env (granted quiet).1 (granted quiet).2
            cases made.symm.trans ok
            obtain ⟨q, hq, key⟩ := taken rfl
            exact ⟨q, entry_kept hq env insert, hk ▸ key⟩
          refine wp_call_lasting taken_lasts taken (fun c' _ _ => reads c') fun c' env _ taken granted _ _ => ?_
          cases found : (Op.exec env find c'.world).1 with
          | ok existing =>
            exact asked ▸ reuseExecution_wp (entry_kept (hk ▸ getByIdempotency_entry found) env find)
          | error e =>
            refine fun d _ _ => .failed rfl fun quiet => ?_
            obtain ⟨q, hq, key⟩ := taken quiet
            exact (getByIdempotency_error (granted quiet).1 found).2 q hq (hk ▸ key)
    · rename_i other same
      cases same
      refine fun d _ _ => .failed rfl fun quiet => other ?_
      exact (getByIdempotency_error (granted quiet).1 found).1 ▸ rfl

end Execution
end Walk
/-! ### Runs -/

/-- No statement removes a node or writes what it is for. -/
theorem CanvasOp.run_nodes (o : CanvasOp) (s : Canvas.Store) {n : WorkflowNodeExecution} (hn : n ∈ s.nodes) :
    ∃ n' ∈ (o.run s).2.nodes, SameNode n n' := by
  have update : ∀ (p : WorkflowNodeExecution → Bool) (f : WorkflowNodeExecution → WorkflowNodeExecution),
      (∀ n, SameNode n (f n)) → ∃ n' ∈ Table.update p f s.nodes, SameNode n n' := by
    intro p f same
    refine ⟨_, Table.mem_update.2 ⟨n, hn, rfl⟩, ?_⟩
    split
    · exact same n
    · exact .refl n
  have stay : ∃ n' ∈ s.nodes, SameNode n n' := ⟨n, hn, .refl n⟩
  cases o with
  | insertWorkflowExecution x nodes =>
    rcases insertWorkflowExecution_cases x nodes s with ⟨run, -⟩ | ⟨-, run⟩
    · simp only [CanvasOp.run, run]
      exact stay
    · simp only [CanvasOp.run, run]
      exact ⟨n, List.mem_append_left _ hn, .refl n⟩
  | updateWorkflowNodeExecution => exact update _ _ fun _ => ⟨rfl, rfl, rfl, rfl, rfl, rfl⟩
  | claimWorkflowNode orgID executionID nodeID now =>
    simp only [CanvasOp.run, Canvas.claimWorkflowNode]
    split
    · exact update _ _ fun _ => ⟨rfl, rfl, rfl, rfl, rfl, rfl⟩
    · exact stay
  | finalizeWorkflowExecution x expected cancelOpenNodes =>
    simp only [CanvasOp.run, Canvas.finalizeWorkflowExecution]
    split
    · exact stay
    simp only
    split
    · exact update _ _ fun _ => ⟨rfl, rfl, rfl, rfl, rfl, rfl⟩
    · exact stay
  | cancelWorkflowExecution orgID workflowID executionID now =>
    simp only [CanvasOp.run, Canvas.cancelWorkflowExecution]
    split
    · exact stay
    split
    · exact stay
    · exact update _ _ fun _ => ⟨rfl, rfl, rfl, rfl, rfl, rfl⟩
  | createWorkflow workflow =>
    simp only [CanvasOp.run, Canvas.createWorkflow]
    split <;> exact stay
  | updateWorkflow workflow =>
    simp only [CanvasOp.run, Canvas.updateWorkflow]
    split <;> [exact stay; split <;> exact stay]
  | softDeleteWorkflow orgID id now =>
    simp only [CanvasOp.run, Canvas.softDeleteWorkflow]
    split <;> exact stay
  | publishWorkflow expected publishedAt versionID =>
    simp only [CanvasOp.run, Canvas.publishWorkflow]
    split
    · exact stay
    split
    · exact stay
    split
    · exact stay
    split <;> exact stay
  | createWorkflowVersion version =>
    simp only [CanvasOp.run, Canvas.createWorkflowVersion]
    split
    · exact stay
    split
    · exact stay
    split <;> exact stay
  | _ => exact stay

/-- The live process `pid` asks with the key and the fingerprint. -/
def Asking (h : Host) (s : System machine Caller Created) (pid : Nat) (k : Key) (fingerprint : String) : Prop :=
  ∃ caller p, s.procs[pid]? = some ⟨caller, p, true⟩ ∧ caller.asks h = some (k, fingerprint)

/-- It has ended with the answer `r`. -/
def Answered (h : Host) (s : System machine Caller Created) (pid : Nat) (k : Key) (fingerprint : String)
    (r : Except Err Created) : Prop :=
  ∃ caller p, s.procs[pid]? = some ⟨caller, p, true⟩ ∧ caller.asks h = some (k, fingerprint) ∧ p.result = some r

/-- What every state of a run of callers has. -/
structure CreatedOnce (h : Host) (s : System machine Caller Created) : Prop where
  /-- A key has one row at most. -/
  unique : ∀ k, (s.config.world.entries.countP fun e => e.key == some k) ≤ 1
  /-- A caller that is answered a row is answered the row of its key, with its own fingerprint. -/
  row : ∀ pid k fingerprint r id reused, Answered h s pid k fingerprint r → Created.row r = some (id, reused) →
    (⟨some k, id, fingerprint⟩ : Entry) ∈ s.config.world.entries
  /-- One caller is answered a row that is not reused. -/
  creator : ∀ k pid fingerprint r id pid' fingerprint' r' id', Answered h s pid k fingerprint r →
    Created.row r = some (id, false) → Answered h s pid' k fingerprint' r' → Created.row r' = some (id', false) →
      pid = pid'
  /-- A caller changes nothing unless the row of its key has its fingerprint. -/
  changes : ∀ pid k fingerprint env t, Asking h s pid k fingerprint →
    s.next (Caller.serve h) (.step pid env) = some t →
      t.config.world = s.config.world ∨ ∃ e ∈ t.config.world.entries, e.key = some k ∧ e.fingerprint = fingerprint
  /-- An execution appears with all its nodes, and no node disappears. -/
  complete : ∀ a t, s.next (Caller.serve h) a = some t →
    (∀ x ∈ t.config.world.canvas.executions, x.id ∉ s.config.world.canvas.executions.map (·.id) →
      ∃ pid env nodes, a = .step pid env ∧ s.Calling pid (.canvas (.insertWorkflowExecution x nodes)) ∧
        ∀ n ∈ nodes, n ∈ t.config.world.canvas.nodes) ∧
    ∀ n ∈ s.config.world.canvas.nodes, ∃ n' ∈ t.config.world.canvas.nodes, SameNode n n'

/-- Nothing fails, and no insert is refused but by its key. -/
def Admissible (s : System machine Caller Created) (a : Action machine Caller) : Prop :=
  ∀ pid env o, a = .step pid env → s.Calling pid o → env.fault = none ∧ admits s.config.world o = true

/-- What a caller promises. -/
def Caller.promise (h : Host) (caller : Caller) (c : Config machine) (o : Op) : Prop :=
  ∀ k fingerprint, caller.asks h = some (k, fingerprint) → Promises k fingerprint c o

theorem serve_wp (h : Host) (calm : Prop) {pid : Nat} {c : Config machine} (caller : Caller) (inv : CreationInv c) :
    wp ((creationRules calm).terms (caller.promise h) pid) (caller.serve h)
      (fun r c' => ∀ k fingerprint, caller.asks h = some (k, fingerprint) → Answers calm pid k fingerprint r c') c := by
  cases asked : caller.asks h with
  | none =>
    refine wp_imp (fun _ _ _ _ => nofun) (wp_calls_lasting (P := fun _ => True) (lasting_const True) ?_ trivial
      (calls_any (Caller.serve h caller)))
    exact fun o _ c' _ _ => ⟨trivial, fun k fingerprint he => by cases asked.symm.trans he⟩
  | some ask =>
    obtain ⟨k, fingerprint⟩ := ask
    have promise : caller.promise h = Promises k fingerprint := by
      funext c' o
      simp [Caller.promise, asked]
    have answer : ∀ {r : Except Err Created} {c' : Config machine}, Answers calm pid k fingerprint r c' →
        ∀ k' fingerprint', some (k, fingerprint) = some (k', fingerprint') → Answers calm pid k' fingerprint' r c' := by
      rintro r c' answers k' fingerprint' he
      cases he
      exact answers
    rw [promise]
    cases caller with
    | other p => cases asked
    | task input =>
      simp only [Caller.asks] at asked
      split at asked
      · cases asked
      · rename_i named
        obtain ⟨⟨digest, payload⟩, fingerprinted, same⟩ := Option.map_eq_some_iff.1 asked
        cases same
        refine wp_seq lawful inv (createTask_wp h fingerprinted named rfl) (fun result d _ answers => ?_) ?_
        · exact fun d' later _ => answer (answers.stable later)
        · exact fun e d _ answers => answer answers
    | execution x nodes =>
      cases asked
      refine wp_seq lawful inv (createWorkflowExecution_once rfl rfl) (fun result d _ answers => ?_) ?_
      · exact fun d' later _ => answer (answers.stable later)
      · exact fun e d _ answers => answer answers

section Runs
variable {h : Host} {w : World} {s : System machine Caller Created}
  {allow : System machine Caller Created → Action machine Caller → Prop}

theorem creation_run (calm : Prop) (keyed : w.Keyed) (admissible : calm → ∀ s a, allow s a → Admissible s a)
    (reach : System.Reach (Caller.serve h) allow (System.init w) s) :
    CreationInv s.config ∧ s.Meets (fun caller pid => (creationRules calm).terms (Caller.promise h caller) pid)
      fun caller r pid c => ∀ k fingerprint, caller.asks h = some (k, fingerprint) →
        Answers calm pid k fingerprint r c := by
  refine System.Reach.disciplined (creationRules_sound calm) (Caller.promise h) _ ?_ ?_ ?_ reach
  · exact ⟨keyed, fun e he => (by cases he), List.nodup_nil⟩
  · intro s pid env o _ allowed calling _ _ _ _ _ quiet
    exact admissible quiet s _ allowed pid env o rfl calling
  · exact fun s caller _ _ inv _ => serve_wp h calm caller inv

theorem answered_run {calm : Prop} (inv : CreationInv s.config)
    (meets : s.Meets (fun caller pid => (creationRules calm).terms (Caller.promise h caller) pid)
      fun caller r pid c => ∀ k fingerprint, caller.asks h = some (k, fingerprint) → Answers calm pid k fingerprint r c)
    {pid : Nat} {k : Key} {fingerprint : String} {r : Except Err Created} (answered : Answered h s pid k fingerprint r) :
    Answers calm pid k fingerprint r s.config := by
  obtain ⟨caller, p, hp, asked, ended⟩ := answered
  have wp := meets pid _ hp rfl
  cases p with
  | ret a =>
    cases ended
    exact wp s.config .refl inv k fingerprint asked
  | fail e =>
    cases ended
    exact wp s.config .refl inv k fingerprint asked
  | call o f => cases ended

theorem Answers.creator {c : Config machine} (inv : CreationInv c) {k : Key} {pid pid' : Nat} {e e' : Entry}
    (he : CreatedBy pid e c) (he' : CreatedBy pid' e' c) (hk : e.key = some k) (hk' : e'.key = some k) : pid = pid' := by
  obtain ⟨ev, hev, rfl, created⟩ := he
  obtain ⟨ev', hev', rfl, created'⟩ := he'
  rw [Table.eq_of_filterMap inv.once hev hev' (Option.bind_eq_some_iff.2 ⟨e, created, hk⟩)
    (Option.bind_eq_some_iff.2 ⟨e', created', hk'⟩)]

/-- What reads changes nothing. -/
theorem reads_kept {o : Op} (reads : o.reads = true) (env : Env) (w : World) : (Op.exec env o w).2 = w := by
  refine Op.exec_frame (fun w => w) ?_
  cases o with
  | sys => rfl
  | task o => cases o <;> first | rfl | cases reads
  | canvas o => cases o <;> first | rfl | cases reads
  | worker | broker | hook => cases reads

/-- What inserts one entry changes nothing else. -/
theorem inserts_kept {o : Op} {e : Entry} (inserting : inserts o = some e) (env : Env) (w : World) :
    (Op.exec env o w).2 = w ∨ e ∈ (Op.exec env o w).2.entries := by
  rcases o.exec_world env w with hw | hw
  · exact Or.inl hw
  rw [hw]
  cases o with
  | task o =>
    cases o with
    | create t =>
      cases inserting
      rcases create_cases t w.tasks with ⟨run, -⟩ | ⟨-, run⟩
      · exact Or.inl (by simp only [Op.run, TaskOp.run, run])
      · refine Or.inr (List.mem_append_left _ ?_)
        simp only [Op.run, TaskOp.run, run]
        exact List.mem_map.2 ⟨Tasks.inserted t, List.mem_append_right _ (List.mem_singleton_self _), rfl⟩
    | _ => cases inserting
  | canvas o =>
    cases o with
    | insertWorkflowExecution x nodes =>
      cases inserting
      rcases insertWorkflowExecution_cases x nodes w.canvas with ⟨run, -⟩ | ⟨-, run⟩
      · exact Or.inl (by simp only [Op.run, CanvasOp.run, run])
      · refine Or.inr (List.mem_append_right _ ?_)
        simp only [Op.run, CanvasOp.run, run]
        exact List.mem_map_of_mem (List.mem_append_right _ (List.mem_singleton_self _))
    | _ => cases inserting
  | sys | worker | broker | hook => cases inserting

/-- An execution appears together with its nodes. -/
theorem execution_appears {env : Env} {o : Op} {w : World} {x : WorkflowExecution}
    (hx : x ∈ (Op.exec env o w).2.canvas.executions) (new : x.id ∉ w.canvas.executions.map (·.id)) :
    ∃ nodes, o = .canvas (.insertWorkflowExecution x nodes) ∧ ∀ n ∈ nodes, n ∈ (Op.exec env o w).2.canvas.nodes := by
  have old : x ∉ w.canvas.executions := fun hx => new (List.mem_map_of_mem hx)
  rcases o.exec_world env w with hw | hw
  · exact (old (hw ▸ hx)).elim
  rw [hw] at hx ⊢
  cases o with
  | canvas o =>
    rcases o.run_entries w.canvas with same | ⟨y, nodes, rfl, -, run⟩
    · have entry : x.entry ∈ w.canvas.executions.map WorkflowExecution.entry := same ▸ List.mem_map_of_mem hx
      obtain ⟨y, hy, he⟩ := List.mem_map.1 entry
      exact (new (List.mem_map.2 ⟨y, hy, congrArg Entry.id he⟩)).elim
    · simp only [Op.run, run] at hx ⊢
      rcases List.mem_append.1 hx with hx | hx
      · exact (old hx).elim
      · cases List.mem_singleton.1 hx
        exact ⟨nodes, rfl, fun n hn => List.mem_append_right _ hn⟩
  | sys | task | worker | broker | hook => exact (old hx).elim

theorem node_kept {env : Env} {o : Op} {w : World} {n : WorkflowNodeExecution} (hn : n ∈ w.canvas.nodes) :
    ∃ n' ∈ (Op.exec env o w).2.canvas.nodes, SameNode n n' := by
  rcases o.exec_world env w with hw | hw
  · exact ⟨n, by rw [hw]; exact hn, .refl n⟩
  rw [hw]
  cases o with
  | canvas o => exact o.run_nodes w.canvas hn
  | sys | task | worker | broker | hook => exact ⟨n, hn, .refl n⟩

end Runs

/-! ### Two callers -/

/-- Steps of one caller, with the fresh ids they draw. -/
def callerSteps (pid : Nat) (fresh : List (BitVec 128)) : List (Action machine Caller) :=
  fresh.map fun id => .step pid (sampleEnv 0 ⟨id⟩)

/-- An execution of the sample workflow, asked for with a fingerprint. -/
def askedExecution (id : UUID) (fingerprint : String) : WorkflowExecution where
  id := id
  orgID := sampleVersion.orgID
  workflowID := sampleVersion.workflowID
  workflowVersionID := sampleVersion.id
  workflowVersion := sampleVersion.version
  status := .pending
  input := .empty
  output := .empty
  errorCode := ""
  errorMessage := ""
  idempotencyKey := "k"
  requestFingerprint := fingerprint
  startedAt := none
  completedAt := none
  createdAt := 0
  updatedAt := 0

/-- The two callers look the key up, and the first one inserts before the second. -/
def racingRun : List (Action machine Caller) :=
  [.spawn (.execution (askedExecution ⟨21⟩ "a") []), .spawn (.execution (askedExecution ⟨22⟩ "b") [])] ++
    callerSteps 0 [0] ++ callerSteps 1 [0] ++ callerSteps 0 [0] ++ callerSteps 1 [0, 0]

/-- The step meets no fault and no other constraint. -/
def admissible (s : System machine Caller Created) : Action machine Caller → Bool
  | .step pid env =>
    env.fault.isNone && match s.procs[pid]? with
      | some ⟨_, .call o _, true⟩ => admits s.config.world o
      | _ => true
  | _ => true

theorem admissible_sound (s : System machine Caller Created) (a : Action machine Caller) (ok : admissible s a = true) :
    Admissible s a := by
  rintro pid env o rfl ⟨caller, k, hp⟩
  simp only [admissible, hp, Bool.and_eq_true, Option.isNone_iff_eq_none] at ok
  exact ok

end Windylane
