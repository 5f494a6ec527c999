import Windylane.Theorems.Records

/-! The columns of an execution or a node agree with its status, whoever wrote them last and from whatever copy. -/

namespace Windylane

open Conc Script Prog

/-- What a queued node waits for. -/
def Awaits (n : WorkflowNodeExecution) : Prop :=
  (n.nodeType = .task ∧ n.queueTaskID ≠ none) ∨ (n.nodeType = .webhook ∧ n.webhookDeliveryID ≠ none) ∨
    (n.nodeType = .delay ∧ n.availableAt ≠ none)

structure NodeCoherent (n : WorkflowNodeExecution) : Prop where
  completed : n.completedAt ≠ none ↔ n.status.terminal = true
  output : n.output ≠ .empty → n.status = .succeeded
  error : n.errorCode ≠ "" → n.status = .failed ∨ n.status = .cancelled
  queued : n.status = .queued → Awaits n

structure ExecutionCoherent (x : WorkflowExecution) : Prop where
  completed : x.completedAt ≠ none ↔ x.status.terminal = true
  output : x.output ≠ .empty → x.status = .succeeded
  error : x.errorCode ≠ "" → x.status = .failed ∨ x.status = .cancelled

/-! ### Nodes -/

/-- The columns that say how a node ended are empty. -/
structure Unfinished (n : WorkflowNodeExecution) : Prop where
  completed : n.completedAt = none
  output : n.output = .empty
  error : n.errorCode = ""

theorem NodeCoherent.unfinished {n : WorkflowNodeExecution} (h : NodeCoherent n) (live : n.status.terminal = false) :
    Unfinished n := by
  refine ⟨?_, ?_, ?_⟩
  · by_contra completed
    have := h.completed.1 completed
    rw [live] at this
    cases this
  · by_contra output
    have := h.output output
    rw [this] at live
    cases live
  · by_contra error
    rcases h.error error with failed | cancelled
    · rw [failed] at live
      cases live
    · rw [cancelled] at live
      cases live

theorem live_of_open {n : WorkflowNodeExecution} (opened : n.status = .queued ∨ n.status = .running) :
    n.status.terminal = false := by
  rcases opened with queued | running
  · rw [queued]
    rfl
  · rw [running]
    rfl

/-- A row that is not queued and has not ended. -/
theorem Unfinished.coherent {n : WorkflowNodeExecution} (h : Unfinished n) (live : n.status.terminal = false)
    (queued : n.status = .queued → Awaits n) : NodeCoherent n where
  completed := by simp [h.completed, live]
  output := fun output => absurd h.output output
  error := fun error => absurd h.error error
  queued := queued

theorem Unfinished.succeeded {n : WorkflowNodeExecution} (h : Unfinished n) (attempt : Int) (input output : RawMessage)
    (now updatedAt : Time) : NodeCoherent { n with
      attempt := attempt
      input := input
      status := .succeeded
      output := output
      completedAt := some now
      updatedAt := updatedAt } where
  completed := by simp [WorkflowNodeExecutionStatus.terminal]
  output := fun _ => rfl
  error := fun error => absurd h.error error
  queued := nofun

theorem Unfinished.failed {n : WorkflowNodeExecution} (h : Unfinished n) (attempt : Int) (input : RawMessage)
    (code message : String) (now updatedAt : Time) : NodeCoherent { n with
      attempt := attempt
      input := input
      status := .failed
      errorCode := code
      errorMessage := message
      completedAt := some now
      updatedAt := updatedAt } where
  completed := by simp [WorkflowNodeExecutionStatus.terminal]
  output := fun output => absurd h.output output
  error := fun _ => Or.inl rfl
  queued := nofun

/-- What is observed of an open row. -/
theorem Observation.coherent {h : Host} {past : List machine.Exchange} {row node : WorkflowNodeExecution} {now : Time}
    (observed : Observation h past row now node) (opened : row.status = .queued ∨ row.status = .running)
    (coherent : NodeCoherent row) (links : Linked row) : NodeCoherent { node with updatedAt := now } := by
  have unfinished := coherent.unfinished (live_of_open opened)
  -- what an open row waits for it still has
  have awaits : node.status = .queued → Awaits node := by
    intro queued
    cases observed with
    | @task _ id task link _ =>
      have same := mirrorTask_observed row task now
      exact Or.inl ⟨same.same.nodeType.trans (links.task (by simp [link])), by simp [same.task, link]⟩
    | @delivery _ id delivery _ link _ =>
      have same := mirrorDelivery_observed row delivery now
      exact Or.inr (Or.inl ⟨same.same.nodeType.trans (links.webhook (by simp [link])), by simp [same.webhook, link]⟩)
    | @delay availableAt _ _ type due =>
      unfold resumeDelay at queued ⊢
      split at queued
      · cases queued
      · rename_i early
        rw [if_neg early]
        exact Or.inr (Or.inr ⟨type, by simp [due]⟩)
    | same _ _ _ _ => exact coherent.queued queued
  cases observed.becomes opened with
  | opened attempt status live =>
    exact Unfinished.coherent ⟨unfinished.completed, unfinished.output, unfinished.error⟩ (live_of_open live) awaits
  | succeeded attempt output => exact unfinished.succeeded _ _ _ _ _
  | failed attempt code message => exact unfinished.failed _ _ _ _ _ _

theorem Observation.linked {h : Host} {past : List machine.Exchange} {row node : WorkflowNodeExecution} {now : Time}
    (observed : Observation h past row now node) (opened : row.status = .queued ∨ row.status = .running)
    (links : Linked row) : Linked { node with updatedAt := now } := by
  cases observed.becomes opened <;> exact ⟨links.task, links.webhook⟩

section Runs
variable {h : Host} {w : World} {s : State} {allow : State → Action machine Request → Prop}

/-- What executing a claimed row of the type stores. -/
theorem Executed.coherent {past : List machine.Exchange} {x : WorkflowExecution} {m : WorkflowNode}
    {base node : WorkflowNodeExecution} {now : Time} (executed : Executed h past x m base now node) (held : Held past base)
    (type : base.nodeType = m.type) (unfinished : Unfinished base) : NodeCoherent node ∧ Linked node := by
  have unlinked : Linked base := ⟨fun linked => absurd held.task linked, fun linked => absurd held.webhook linked⟩
  -- a row that is queued has not ended, and waits for what was just stored
  have waits : ∀ {node : WorkflowNodeExecution}, node.completedAt = base.completedAt → node.output = base.output →
      node.errorCode = base.errorCode → node.status = .queued → Awaits node → NodeCoherent node := by
    intro node completed output error queued awaits
    refine Unfinished.coherent ⟨?_, ?_, ?_⟩ (by rw [queued]; rfl) fun _ => awaits
    · rw [completed, unfinished.completed]
    · rw [output, unfinished.output]
    · rw [error, unfinished.error]
  cases executed with
  | trigger _ => exact ⟨unfinished.succeeded _ _ _ _ _, unlinked.task, unlinked.webhook⟩
  | condition result _ => exact ⟨unfinished.succeeded _ _ _ _ _, unlinked.task, unlinked.webhook⟩
  | delay config is _ =>
    exact ⟨waits rfl rfl rfl rfl (Or.inr (Or.inr ⟨type.trans is, nofun⟩)), unlinked.task, unlinked.webhook⟩
  | task id config is _ _ =>
    exact ⟨waits rfl rfl rfl rfl (Or.inl ⟨type.trans is, nofun⟩), fun _ => type.trans is, unlinked.webhook⟩
  | webhook is _ =>
    exact ⟨waits rfl rfl rfl rfl (Or.inr (Or.inl ⟨type.trans is, nofun⟩)), unlinked.task, fun _ => type.trans is⟩

theorem coherent_law (fresh : w.Fresh) : RowLaw h allow w fun _ n => NodeCoherent n ∧ Linked n where
  lasts := fun _ _ _ _ _ _ _ _ coherent => coherent
  new := by
    rintro _ n ⟨pending, output, error, -, completed, unlinked⟩
    refine ⟨Unfinished.coherent ⟨completed, output, error⟩ (by rw [pending]; rfl) fun queued => ?_, ?_, ?_⟩
    · rw [pending] at queued
      cases queued
    · exact fun linked => absurd unlinked.task linked
    · exact fun linked => absurd unlinked.webhook linked
  claim := by
    rintro s pid n orgID now - - pending - ⟨coherent, links⟩
    have unfinished := coherent.unfinished (by rw [pending]; rfl)
    exact ⟨Unfinished.coherent ⟨unfinished.completed, unfinished.output, unfinished.error⟩ rfl (by simp [Canvas.claimed]), links.task, links.webhook⟩
  store := by
    intro s pid node expected reach write saw
    have inv := canvas_inv fresh reach
    have recalled := recalled_run fresh reach pid
    have unfinished : ∀ {base}, Held (history pid s.config.trace) base → Unfinished base ∧ Linked base := by
      intro base held
      obtain ⟨coherent, links⟩ := saw base held.saw
      exact ⟨coherent.unfinished (live_of_open (Or.inr held.running)), links⟩
    cases write with
    | skip held _ =>
      obtain ⟨unfinished, links⟩ := unfinished held
      refine ⟨⟨by simp [WorkflowNodeExecutionStatus.terminal], ?_, ?_, by simp⟩, links.task, links.webhook⟩
      · exact fun output => absurd unfinished.output output
      · exact fun error => absurd unfinished.error error
    | execute held _ assigned executed =>
      exact executed.coherent held (assigned.type inv (held.saw.stands recalled) recalled) (unfinished held).1
    | fail held _ _ =>
      obtain ⟨unfinished, links⟩ := unfinished held
      exact ⟨unfinished.failed _ _ _ _ _ _, links.task, links.webhook⟩
    | observe seen opened _ observed _ =>
      obtain ⟨coherent, links⟩ := saw _ seen
      exact ⟨observed.coherent opened coherent links, observed.linked opened links⟩
  close := by
    rintro _ n code message now live ⟨coherent, links⟩
    have unfinished := coherent.unfinished live
    refine ⟨⟨by simp [Canvas.closed, WorkflowNodeExecutionStatus.terminal], ?_, fun _ => Or.inr rfl, by simp [Canvas.closed]⟩, links.task, links.webhook⟩
    exact fun output => absurd unfinished.output output

/-! ### Executions -/

structure Open (x : WorkflowExecution) : Prop where
  completed : x.completedAt = none
  output : x.output = .empty
  error : x.errorCode = ""

theorem ExecutionCoherent.opened {x : WorkflowExecution} (h : ExecutionCoherent x) (live : x.status.terminal = false) :
    Open x := by
  refine ⟨?_, ?_, ?_⟩
  · by_contra completed
    have := h.completed.1 completed
    rw [live] at this
    cases this
  · by_contra output
    have := h.output output
    rw [this] at live
    cases live
  · by_contra error
    rcases h.error error with failed | cancelled
    · rw [failed] at live
      cases live
    · rw [cancelled] at live
      cases live

theorem Open.coherent {x : WorkflowExecution} (h : Open x) (live : x.status.terminal = false) : ExecutionCoherent x where
  completed := by simp [h.completed, live]
  output := fun output => absurd h.output output
  error := fun error => absurd h.error error

/-- What is written over a live row is coherent: a copy that was marked as failed never gets there. -/
theorem ExecutionWrite.coherent {pid : Nat} (fresh : w.Fresh) (reach : Reachable h allow w s) {row x' : WorkflowExecution}
    (write : ExecutionWrite (history pid s.config.trace) row x') (hrow : row ∈ s.config.world.canvas.executions)
    (live : row.status.terminal = false) (coherent : ExecutionCoherent row)
    (read : ∀ y, ReadExecution (history pid s.config.trace) y → ExecutionCoherent y) : ExecutionCoherent x' := by
  have copied : ∀ {y}, Copy (history pid s.config.trace) y → row.id = y.id → Open y := by
    intro y copy id
    rcases copy.of_live (canvas_inv fresh reach) (recalled_run fresh reach pid) hrow id live with
      ⟨seen, running⟩ | ⟨z, now, updated, seen, pending, rfl, -⟩
    · exact (read y seen).opened (by rw [running]; rfl)
    · have opened := (read z seen).opened (by rw [pending]; rfl)
      exact ⟨opened.completed, opened.output, opened.error⟩
  cases write with
  | started seen pending _ _ =>
    have opened := (read _ seen).opened (by rw [pending]; rfl)
    exact Open.coherent ⟨opened.completed, opened.output, opened.error⟩ rfl
  | touched copy id _ =>
    have opened := copied copy id
    exact Open.coherent ⟨opened.completed, opened.output, opened.error⟩ rfl
  | succeeded copy id =>
    have opened := copied copy id
    exact ⟨by simp [Canvas.revise, WorkflowExecutionStatus.terminal], fun _ => rfl, fun error => absurd opened.error error⟩
  | failed copy id _ =>
    have opened := copied copy id
    exact ⟨by simp [Canvas.revise, WorkflowExecutionStatus.terminal], fun output => absurd opened.output output, fun _ => Or.inl rfl⟩
  | cancelled now =>
    have opened := coherent.opened live
    exact ⟨by simp [Canvas.cancelled, WorkflowExecutionStatus.terminal], fun output => absurd opened.output output,
      fun _ => Or.inr rfl⟩

theorem executions_coherent (fresh : w.Fresh) (reach : Reachable h allow w s) :
    ∀ x ∈ s.config.world.canvas.executions, ExecutionCoherent x := by
  refine (reach.recalls (W := fun c : Config machine => ∀ x ∈ c.world.canvas.executions, ExecutionCoherent x)
    (K := fun _ e => ∀ y, ReadExecution [e] y → ExecutionCoherent y) (fun x hx => by simp [fresh.executions] at hx) ?_).1
  intro s pid env o reach _ calling rows seen
  have read : ∀ y, ReadExecution (history pid s.config.trace) y → ExecutionCoherent y := by
    intro y read
    obtain ⟨c, hc, read⟩ := read.singleton
    exact seen pid c hc y read
  have stored : ∀ x ∈ (o.exec env s.config.world).2.canvas.executions, ExecutionCoherent x := by
    intro x hx
    rcases execution_written fresh reach calling env hx with before | ⟨nodes, new, -⟩ | ⟨row, hrow, live, write⟩
    · exact rows x before
    · exact Open.coherent ⟨new.completedAt, new.output, new.errorCode⟩ (by rw [new.status]; rfl)
    · exact write.coherent fresh reach hrow live (rows row hrow) read
  exact ⟨stored, fun y read => stored y (readExecution_stored rfl read), fun _ known => known⟩

/-- The columns of every stored execution and node agree with its status. -/
theorem rows_coherent (fresh : w.Fresh) (reach : Reachable h anything w s) :
    (∀ x ∈ s.config.world.canvas.executions, ExecutionCoherent x) ∧
      ∀ n ∈ s.config.world.canvas.nodes, NodeCoherent n :=
  ⟨executions_coherent fresh reach, fun n hn => ((rows_run (coherent_law fresh) fresh reach).1 n hn).1⟩

end Runs

/-- The sample workflow is started, and its task waits for a worker. -/
def queuedRun : List (Action machine Request) :=
  [.spawn (.startExecution (sampleStart (.json (.obj [("go", .bool true)]))))] ++ steps 0 0 (idsFrom 100 63)

theorem queuedRun_coherent : ∃ s, (System.init gateWorld).run (body sampleHost) queuedRun = some s ∧
    s.config.world.canvas.executions.map (fun x => (x.status, x.completedAt)) = [(.running, none)] ∧
    s.config.world.canvas.nodes.map (fun n => (n.nodeID, n.status, n.queueTaskID.isSome, n.completedAt)) =
      [("start", .succeeded, false, some 0), ("gate", .succeeded, false, some 0), ("work", .queued, true, none)] ∧
    (∀ x ∈ s.config.world.canvas.executions, ExecutionCoherent x) ∧
      ∀ n ∈ s.config.world.canvas.nodes, NodeCoherent n := by
  have run : ∃ s, (System.init gateWorld).run (body sampleHost) queuedRun = some s ∧
      s.config.world.canvas.executions.map (fun x => (x.status, x.completedAt)) = [(.running, none)] ∧
      s.config.world.canvas.nodes.map (fun n => (n.nodeID, n.status, n.queueTaskID.isSome, n.completedAt)) =
        [("start", .succeeded, false, some 0), ("gate", .succeeded, false, some 0), ("work", .queued, true, none)] :=
    ⟨_, rfl, rfl, rfl⟩
  obtain ⟨s, run, executions, nodes⟩ := run
  exact ⟨s, run, executions, nodes, rows_coherent gateWorld_fresh (System.reach_of_run (fun _ _ _ => trivial) run)⟩

end Windylane
