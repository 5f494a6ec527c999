import Windylane.Theorems.Rounds

/-! AdvanceExecution returns. While no call of its own fails, nothing that it reads of a stored execution makes it fail, whatever
    the other processes do meanwhile: the version is there, every row is of a node of its definition, and the readiness of every
    node is decided. -/

namespace Windylane

open Conc Script Prog

/-! ### What is read -/

/-- The execution `x` is stored, and `v` is the version that it runs. -/
structure StillStored (x : WorkflowExecution) (v : WorkflowVersion) (w : World) : Prop where
  canvas : CanvasInv False (Done w) w.canvas
  stored : ∃ y ∈ w.canvas.executions, SameExecution x y
  version : v ∈ w.canvas.versions

/-- What a call answers that does not fail, while the execution is stored. -/
def Reads (x : WorkflowExecution) (v : WorkflowVersion) (o : Op) (r : machine.Answer o) : Prop :=
  ∃ env w, env.fault = none ∧ StillStored x v w ∧ r = (o.exec env w).1

section Reads
variable {h : Host} {x : WorkflowExecution} {v : WorkflowVersion} {α β : Type} {φ : Except Err α → Prop}

/-- Without faults a call is answered as the stores answer it. -/
theorem storeAnswers_calm {env : Env} (calm : env.fault = none) (o : Op) (w : World) : StoreAnswers o (o.exec env w).1 := by
  refine ⟨env, w, ⟨fun e fault => ?_, rfl⟩⟩
  rw [calm] at fault
  rcases fault with fault | fault <;> cases fault

theorem Reads.stores {o : Op} {r : machine.Answer o} (answer : Reads x v o r) : StoreAnswers o r := by
  obtain ⟨env, w, calm, -, rfl⟩ := answer
  exact storeAnswers_calm calm o w

theorem reads_sys {o : SysOp} {f : o.Resp → Script α} (rest : ∀ a, (f a).Ends (Reads x v) φ) :
    (sys o >>= f).Ends (Reads x v) φ := by
  intro r answer
  obtain ⟨a, rfl⟩ := answer.stores.sys
  exact rest a

/-- A call whose answer is known. -/
theorem reads_canvas {o : CanvasOp} {f : o.Resp → Script α} {P : o.Resp → Prop}
    (answers : ∀ w, StillStored x v w → ∃ a, (o.run w.canvas).1 = .ok a ∧ P a) (rest : ∀ a, P a → (f a).Ends (Reads x v) φ) :
    (canvas o >>= f).Ends (Reads x v) φ := by
  rintro r ⟨env, w, calm, stored, rfl⟩
  obtain ⟨a, answered, known⟩ := answers w stored
  have run : ((Op.canvas o).exec env w).1 = .ok a := by
    rw [Op.exec_calm calm]
    exact answered
  rw [run]
  exact rest a known

/-- A call that always answers. -/
theorem reads_any {o : CanvasOp} {f : o.Resp → Script α} (answers : ∀ s, ∃ a, (o.run s).1 = .ok a)
    (rest : ∀ a, (f a).Ends (Reads x v) φ) : (canvas o >>= f).Ends (Reads x v) φ := by
  refine reads_canvas (P := fun _ => True) (fun w _ => ?_) fun a _ => rest a
  obtain ⟨a, answered⟩ := answers w.canvas
  exact ⟨a, answered, trivial⟩

theorem reads_attempt {o : CanvasOp} {f : Except Err o.Resp → Script α} (rest : ∀ r, (f r).Ends (Reads x v) φ) :
    (tryCanvas o >>= f).Ends (Reads x v) φ := fun r _ => rest r

/-- A program that returns whatever the stores answer. -/
theorem reads_returns {p : Script β} {f : β → Script α} (returns : p.Ends StoreAnswers Returns)
    (rest : ∀ b, (f b).Ends (Reads x v) φ) : (p >>= f).Ends (Reads x v) φ := by
  refine Ends.bind (returns.answered fun o r answer => answer.stores) (fun b _ => rest b) ?_
  rintro e ⟨b, he⟩
  cases he

/-- The rows of an execution as they are read. -/
structure ReadWell (d : WorkflowDefinition) (rows : List WorkflowNodeExecution) : Prop where
  known : ∀ n ∈ rows, (d.node? n.nodeID).isSome = true
  sound : ∀ n ∈ rows, Sound n.output
  decided : ∀ m, ∃ ready, workflowNodeReadiness d rows m = .ok ready

theorem StillStored.run {w : World} (stored : StillStored x v w) (pins : Pins v x) : ∃ r, runOf w.canvas x.id = some r ∧
    SameExecution x r.execution ∧ RunInv ⟨v.definition, False, Done w⟩ r := by
  obtain ⟨y, hy, same⟩ := stored.stored
  have hr := stored.canvas.runOf_of_mem hy
  obtain ⟨d, pinned, run⟩ := stored.canvas.runs _ _ hr
  have pins : v.id = y.workflowVersionID := pins.id.trans same.workflowVersionID.symm
  have own : definitionOf w.canvas y = some v.definition := by
    unfold definitionOf
    rw [Table.find?_unique stored.canvas.versions stored.version (by simp [pins]) fun q chosen =>
      (of_decide_eq_true chosen).trans pins.symm]
    rfl
  rw [own] at pinned
  cases pinned
  exact ⟨_, same.id ▸ hr, same, run⟩

theorem StillStored.nodes {w : World} (stored : StillStored x v w) (pins : Pins v x)
    (accepted : (validateWorkflowDefinition h.uuidParse v.definition).valid = true) :
    ReadWell v.definition (Canvas.getWorkflowNodeExecutions x.orgID x.id w.canvas) := by
  obtain ⟨r, hr, same, run⟩ := stored.run pins
  have perm := getWorkflowNodeExecutions_perm hr run same.orgID
  refine ⟨fun n hn => ?_, fun n hn => (run.rows n (perm.mem_iff.1 hn)).output, fun m => ?_⟩
  · have key : (n.nodeID, n.nodeType) ∈ v.definition.nodeList.map (fun m => (m.id, m.type)) := by
      rw [← run.keys]
      exact List.mem_map_of_mem (perm.mem_iff.1 hn)
    obtain ⟨m, hm, same⟩ := List.mem_map.1 key
    have found := run.node?_eq hm
    rw [(Prod.mk.inj same).1] at found
    rw [found]
    rfl
  · rw [workflowNodeReadiness_perm perm run.nodeIDs]
    exact run.readiness_decides (publishable_of_valid accepted) m

theorem StillStored.execution {w : World} (stored : StillStored x v w) :
    ∃ y, Canvas.getWorkflowExecution x.orgID x.workflowID x.id w.canvas = .ok y ∧ SameExecution x y := by
  obtain ⟨y, hy, same⟩ := stored.stored
  refine ⟨y, ?_, same⟩
  unfold Canvas.getWorkflowExecution
  rw [Table.find?_unique stored.canvas.ids hy (by simp [same.orgID, same.workflowID, same.id]) fun q chosen => ?_]
  simp only [Bool.and_eq_true, decide_eq_true_eq] at chosen
  exact chosen.2.trans same.id.symm

theorem StillStored.pinned {w : World} (stored : StillStored x v w) (pins : Pins v x) :
    Canvas.getWorkflowExecutionVersion x.orgID x.workflowID x.workflowVersionID w.canvas = .ok v := by
  unfold Canvas.getWorkflowExecutionVersion
  rw [Table.find?_unique stored.canvas.versions stored.version (by simp [pins.id, pins.orgID, pins.workflowID]) fun q chosen => ?_]
  simp only [Bool.and_eq_true, decide_eq_true_eq] at chosen
  exact chosen.2.trans pins.id.symm

end Reads

/-! ### Nodes -/

/-- The program returns the execution that it was given, perhaps changed. -/
def Carries (x : WorkflowExecution) {α : Type} (view : α → WorkflowExecution) (r : Except Err α) : Prop :=
  ∃ a, r = .ok a ∧ SameExecution x (view a)

section Nodes
variable {h : Host} {x y : WorkflowExecution} {v : WorkflowVersion}

theorem updateNode_returns {α : Type} {φ : Except Err α → Prop} (node : WorkflowNodeExecution)
    (expected : WorkflowNodeExecutionStatus) {f : Bool → Script α} (rest : ∀ b, (f b).Ends (Reads x v) φ) :
    (updateNode node expected >>= f).Ends (Reads x v) φ := by
  have returns : (updateNode node expected).Ends (Reads x v) Returns := by
    refine reads_any (fun s => ⟨_, rfl⟩) fun updated => ?_
    simp only
    split
    · split
      all_goals first
        | exact reads_sys fun _ => ⟨_, rfl⟩
        | exact ⟨_, rfl⟩
    · exact ⟨_, rfl⟩
  refine Ends.bind returns (fun b _ => rest b) ?_
  rintro e ⟨b, he⟩
  cases he

theorem recordCancelled_returns (nodes : List WorkflowNodeExecution) : (recordCancelled nodes).Ends (Reads x v) Returns := by
  induction nodes with
  | nil => exact ⟨_, rfl⟩
  | cons node rest ih =>
    unfold recordCancelled
    split
    · exact reads_sys fun _ => ih
    · exact ih

theorem failExecution_returns (same : SameExecution x y) (code message : String) :
    (failExecution y code message).Ends (Reads x v) (Carries x id) := by
  have closed (now : Time) : Carries x id (.ok { y with
      status := .failed, errorCode := code, errorMessage := message, completedAt := some now, updatedAt := now }) :=
    ⟨_, rfl, same.id, same.orgID, same.workflowID, same.workflowVersionID, same.workflowVersion, same.input, same.idempotencyKey,
      same.requestFingerprint, same.createdAt⟩
  refine reads_sys fun now => reads_any (fun s => ⟨_, rfl⟩) fun updated => ?_
  simp only
  split
  · refine reads_sys fun _ => reads_attempt fun answer => ?_
    split
    · refine Ends.bind (recordCancelled_returns _) (fun _ _ => closed now) ?_
      rintro e ⟨_, he⟩
      cases he
    · exact closed now
  · exact closed now

theorem failClaimedNode_returns (same : SameExecution x y) (node : WorkflowNodeExecution) (code message : String) :
    (failClaimedNode y node code message).Ends (Reads x v) (Carries x id) :=
  reads_sys fun _ => updateNode_returns _ _ fun _ => failExecution_returns same _ _

theorem executeClaimedNode_returns (same : SameExecution x y) (m : WorkflowNode) (node : WorkflowNodeExecution) :
    (executeClaimedNode h y m node).Ends (Reads x v) (Carries x id) := by
  have settled (node : WorkflowNodeExecution) :
      (updateNode node .running >>= fun _ => pure y).Ends (Reads x v) (Carries x id) :=
    updateNode_returns _ _ fun _ => ⟨y, rfl, same⟩
  refine reads_sys fun now => ?_
  simp only
  split
  · exact settled _
  · split
    · exact failClaimedNode_returns same _ _ _
    · split
      · exact failClaimedNode_returns same _ _ _
      · exact settled _
  · split
    · exact failClaimedNode_returns same _ _ _
    · exact settled _
  · refine reads_returns (dispatchWorkflowTask_returns h _ _ _ _ _) fun result => ?_
    split
    · exact failClaimedNode_returns same _ _ _
    · exact settled _
  · refine reads_returns (dispatchWorkflowWebhook_returns h _ _ _) fun result => ?_
    split
    · exact failClaimedNode_returns same _ _ _
    · exact settled _
  · exact failClaimedNode_returns same _ _ _

end Nodes

/-! ### AdvanceExecution -/

section Advance
variable {h : Host} {x y : WorkflowExecution} {v : WorkflowVersion} {d : WorkflowDefinition}

theorem storeObserved_returns {α : Type} {φ : Except Err α → Prop} (row node : WorkflowNodeExecution) (now : Time)
    {f : Bool → Script α} (rest : ∀ b, (f b).Ends (Reads x v) φ) : (storeObserved row node now >>= f).Ends (Reads x v) φ := by
  unfold storeObserved
  split
  · exact updateNode_returns _ _ rest
  · exact rest false

/-- Without faults a task is found or not found. -/
theorem reads_getByID {α : Type} {φ : Except Err α → Prop} {orgID id : UUID} {f : Except Err Task → Script α}
    (found : ∀ task, (f (.ok task)).Ends (Reads x v) φ) (missing : (f (.error .taskNotFound)).Ends (Reads x v) φ) :
    (tryTask (.getByID orgID id) >>= f).Ends (Reads x v) φ := by
  rintro r ⟨env, w, calm, -, rfl⟩
  rw [Op.exec_calm calm]
  simp only [Op.run, TaskOp.run, Tasks.getByID]
  split
  · exact found _
  · exact missing

theorem reads_getWebhookDelivery {α : Type} {φ : Except Err α → Prop} {orgID id : UUID}
    {f : Except Err WebhookDelivery → Script α} (found : ∀ delivery, (f (.ok delivery)).Ends (Reads x v) φ)
    (missing : (f (.error .webhookDeliveryNotFound)).Ends (Reads x v) φ) :
    (tryHook (.getWebhookDelivery orgID id) >>= f).Ends (Reads x v) φ := by
  rintro r ⟨env, w, calm, -, rfl⟩
  rw [Op.exec_calm calm]
  simp only [Op.run, HookOp.run, Webhooks.getWebhookDelivery]
  split
  · exact found _
  · exact missing

theorem reconcileNode_returns (same : SameExecution x y) {row : WorkflowNodeExecution}
    (known : (d.node? row.nodeID).isSome = true) :
    (reconcileNode h d y row).Ends (Reads x v) (Carries x (·.2)) := by
  have observed (node : WorkflowNodeExecution) (now : Time) :
      (storeObserved row node now >>= fun updated => pure (updated, y)).Ends (Reads x v) (Carries x (·.2)) :=
    storeObserved_returns _ _ _ fun _ => ⟨_, rfl, same⟩
  refine reads_sys fun now => ?_
  split
  · refine reads_getByID (fun task => ?_) ?_
    · exact observed _ _
    · exact ⟨_, rfl, same⟩
  · refine reads_getWebhookDelivery (fun delivery => ?_) ?_
    · exact observed _ _
    · exact ⟨_, rfl, same⟩
  · split
    · exact observed _ _
    split
    · split
      · exact ⟨_, rfl, same⟩
      split
      · rename_i unknown
        rw [unknown] at known
        cases known
      · refine reads_sys fun _ => Ends.bind (executeClaimedNode_returns same _ _) ?_ ?_
        · rintro y' ⟨_, he, same'⟩
          cases he
          exact ⟨_, rfl, same'⟩
        · rintro e ⟨_, he, -⟩
          cases he
    · exact observed _ _

theorem reconcileExternalNodes_returns (same : SameExecution x y) {rows : List WorkflowNodeExecution}
    (known : ∀ n ∈ rows, (d.node? n.nodeID).isSome = true) (changed : Bool) :
    (reconcileExternalNodes h d rows changed y).Ends (Reads x v) (Carries x (·.2)) := by
  induction rows generalizing y changed with
  | nil => exact ⟨_, rfl, same⟩
  | cons row rest ih =>
    obtain ⟨here, later⟩ := List.forall_mem_cons.1 known
    unfold reconcileExternalNodes
    split
    · refine Ends.bind (reconcileNode_returns same here) ?_ ?_
      · rintro ⟨updated, y'⟩ ⟨_, he, same'⟩
        cases he
        exact ih same' later _
      · rintro e ⟨_, he, -⟩
        cases he
    · exact ih same later _

theorem scheduleRunnableNodes_returns (same : SameExecution x y) {rows : List WorkflowNodeExecution}
    (decided : ∀ m, ∃ ready, workflowNodeReadiness d rows m = .ok ready) (todo : List WorkflowNode) :
    (scheduleRunnableNodes h d rows y todo).Ends (Reads x v) (Carries x (·.2)) := by
  induction todo with
  | nil => exact ⟨_, rfl, same⟩
  | cons m rest ih =>
    unfold scheduleRunnableNodes
    split
    · obtain ⟨ready, decided⟩ := decided m
      rw [decided]
      simp only
      split
      · rename_i undecided
        cases undecided
      · exact ih
      · refine reads_sys fun now => reads_any (fun s => ⟨_, rfl⟩) fun claimed => ?_
        split
        · exact ih
        · refine reads_sys fun _ => ?_
          split
          · exact reads_sys fun now => updateNode_returns _ _ fun _ => ⟨_, rfl, same⟩
          · refine Ends.bind (executeClaimedNode_returns same _ _) ?_ ?_
            · rintro y' ⟨_, he, same'⟩
              cases he
              exact ⟨_, rfl, same'⟩
            · rintro e ⟨_, he, -⟩
              cases he
    · exact ih

theorem touchRunningExecution_returns (y : WorkflowExecution) : (touchRunningExecution y).Ends (Reads x v) Returns := by
  refine reads_sys fun _ => reads_any (fun s => ⟨_, rfl⟩) fun _ => ?_
  exact ⟨_, rfl⟩

theorem finalizeExecutionIfComplete_returns {rows : List WorkflowNodeExecution} (sound : ∀ n ∈ rows, Sound n.output) :
    (finalizeExecutionIfComplete d rows y).Ends (Reads x v) Returns := by
  unfold finalizeExecutionIfComplete
  split
  · exact touchRunningExecution_returns y
  split
  · exact touchRunningExecution_returns y
  split
  · rename_i unsound
    have collected := collectOutputs_isSome sound []
    rw [unsound] at collected
    cases collected
  · refine reads_sys fun now => reads_any (fun s => ⟨_, rfl⟩) fun updated => ?_
    split
    · intro r answer
      obtain ⟨_, rfl⟩ := answer.stores.sys
      exact ⟨_, rfl⟩
    · exact ⟨_, rfl⟩

theorem markRunning_returns (same : SameExecution x y) : (markRunning y).Ends (Reads x v) (Carries x id) := by
  unfold markRunning
  split
  · refine reads_sys fun now => reads_any (fun s => ⟨_, rfl⟩) fun updated => ?_
    have started : Carries x id (.ok { y with status := .running, startedAt := some now, updatedAt := now }) :=
      ⟨_, rfl, same.id, same.orgID, same.workflowID, same.workflowVersionID, same.workflowVersion, same.input,
        same.idempotencyKey, same.requestFingerprint, same.createdAt⟩
    simp only
    split
    · exact reads_sys fun _ => started
    · exact started
  · exact ⟨_, rfl, same⟩

variable (pins : Pins v x) (accepted : (validateWorkflowDefinition h.uuidParse v.definition).valid = true)
include pins accepted

theorem reads_nodes {α : Type} {φ : Except Err α → Prop} (same : SameExecution x y)
    {f : List WorkflowNodeExecution → Script α} (rest : ∀ rows, ReadWell v.definition rows → (f rows).Ends (Reads x v) φ) :
    (canvas (.getWorkflowNodeExecutions y.orgID y.id) >>= f).Ends (Reads x v) φ := by
  refine reads_canvas (P := ReadWell v.definition) (fun w stored => ⟨_, rfl, ?_⟩) rest
  rw [same.orgID, same.id]
  exact stored.nodes pins accepted

theorem advanceLoop_returns (rounds : Nat) (same : SameExecution x y) :
    (advanceLoop h v.definition rounds y).Ends (Reads x v) Returns := by
  induction rounds generalizing y with
  | zero => exact ⟨_, rfl⟩
  | succ rounds ih =>
    refine reads_nodes pins accepted same fun rows read => ?_
    refine Ends.bind (reconcileExternalNodes_returns same read.known false) ?_ ?_
    · rintro ⟨changed, y'⟩ ⟨_, he, same⟩
      cases he
      simp only
      split
      · exact ih same
      · refine reads_nodes pins accepted same fun rows read => ?_
        split
        · refine Ends.bind (failExecution_returns same _ _) (fun _ _ => ⟨_, rfl⟩) ?_
          rintro e ⟨_, he, -⟩
          cases he
        · refine Ends.bind (scheduleRunnableNodes_returns same read.decided _) ?_ ?_
          · rintro ⟨progressed, y''⟩ ⟨_, he, same⟩
            cases he
            simp only
            split
            · exact ih same
            · exact finalizeExecutionIfComplete_returns read.sound
          · rintro e ⟨_, he, -⟩
            cases he
    · rintro e ⟨_, he, -⟩
      cases he

/-- AdvanceExecution of a stored execution returns, as long as none of its calls fails. -/
theorem advanceExecution_returns : (advanceExecution h x.orgID x.workflowID x.id).Ends (Reads x v) Returns := by
  refine reads_canvas (P := SameExecution x) (fun w stored => stored.execution) fun y same => ?_
  split
  · exact ⟨_, rfl⟩
  · refine reads_canvas (P := (· = v)) (fun w stored => ⟨v, ?_, rfl⟩) ?_
    · rw [same.workflowVersionID]
      exact stored.pinned pins
    · rintro _ rfl
      rw [if_neg (by simp [pins.version, same.workflowVersion])]
      refine Ends.bind (markRunning_returns same) ?_ ?_
      · rintro y' ⟨_, he, same⟩
        cases he
        exact advanceLoop_returns pins accepted _ same
      · rintro e ⟨_, he, -⟩
        cases he

end Advance

section Runs
variable {h : Host} {w : World} {s t : State} {x : WorkflowExecution} {v : WorkflowVersion}

theorem StillStored.next (fresh : w.Fresh) (reach : Reachable h anything w s) (stored : StillStored x v s.config.world)
    {a : Action machine Request} (taken : s.next (body h) a = some t) : StillStored x v t.config.world := by
  have canvas := canvas_inv fresh (reach.next a trivial taken)
  rcases System.next_cases taken with ⟨_, -, rfl⟩ | ⟨pid, env, request, o, k, -, hp, rfl⟩ | ⟨_, _, -, -, rfl⟩
  · exact stored
  · have step := canvas_step fresh reach ⟨request, k, hp⟩ env
    refine ⟨canvas, ?_, step.versions.subset stored.version⟩
    obtain ⟨y, hy, same⟩ := stored.stored
    obtain ⟨r, hr, kept⟩ := step.runOf (stored.canvas.runOf_of_mem hy)
    refine ⟨r.execution, runOf_mem hr, ?_⟩
    rcases kept with rfl | ⟨d, -, moved⟩
    · exact same
    · exact same.trans moved.same
  · exact stored

/-- Alone and without faults, AdvanceExecution returns without an error. -/
theorem advanceExecution_returns_alone (fresh : w.Fresh) (reach : Reachable h anything w s)
    (stored : StillStored x v s.config.world) (pins : Pins v x)
    (accepted : (validateWorkflowDefinition h.uuidParse v.definition).valid = true) (env : Nat → Env)
    (calm : ∀ i, (env i).fault = none) :
    (Prog.alone (M := machine) env (advanceExecution h x.orgID x.workflowID x.id) s.config.world).1 = .ok () := by
  have runs : RunsAlone (Reachable h anything w) s.procs.length (fun r c => Returns r ∧ StillStored x v c.world)
      (advanceExecution h x.orgID x.workflowID x.id) s.config := by
    refine Prog.solo_calls (M := machine) (I := fun c => StillStored x v c.world) (calls_any _)
      (advanceExecution_returns pins accepted) ?_ ?_ stored
    · intro s o env _ _ _ calm stored
      exact ⟨env, s.config.world, calm, stored, rfl⟩
    · intro s o env reach calling _ calm stored
      obtain ⟨request, k, hp⟩ := calling
      exact stored.next fresh reach (System.next_step hp env)
  obtain ⟨t, -, -, ⟨answer, he⟩, -⟩ := alone_of_runs reach (.advanceExecution x.orgID x.workflowID x.id) rfl runs env calm
  exact he

end Runs

end Windylane
