import Windylane.Lib.Alone
import Windylane.Theorems.Records

/-! AdvanceExecution while nobody else calls and nothing fails. -/

namespace Windylane

open Conc Script Prog

/-- The program, called by `pid` with no other call in between and no fault, ends as `Φ` says. -/
abbrev RunsAlone {α : Type} (R : State → Prop) (pid : Nat) (Φ : Except Err α → Config machine → Prop) (p : Script α)
    (c : Config machine) : Prop :=
  p.Solo R (fun env : Env => env.fault = none) pid Φ c

section Rules
variable {α : Type} {R : State → Prop} {pid : Nat} {Φ : Except Err α → Config machine → Prop} {c : Config machine} {w : World}

theorem alone_sys {o : SysOp} {f : o.Resp → Script α} (hc : c.world = w)
    (h : ∀ a c', c'.world = w → RunsAlone R pid Φ (f a) c') : RunsAlone R pid Φ (sys o >>= f) c := by
  refine solo_perform fun s _ _ _ env _ => ⟨o.run env, by simp, h _ _ ?_⟩
  simp [hc]

theorem alone_record {Φ : Except Err Unit → Config machine → Prop} {event : NewMetricEventInput} (hc : c.world = w)
    (h : ∀ c', c'.world = w → Φ (.ok ()) c') : RunsAlone R pid Φ (record event) c := by
  rintro known env calm
  have run : machine.exec env (.sys (.record event)) c.world = _ := Op.exec_calm calm _ _
  rw [run]
  exact fun _ => h _ (by rw [Config.after_world, run]; exact hc)

theorem alone_canvas {o : CanvasOp} {f : o.Resp → Script α} {a : o.Resp} (hc : c.world = w)
    (answer : (o.run w.canvas).1 = .ok a)
    (h : ∀ c', c'.world = { w with canvas := (o.run w.canvas).2 } → RunsAlone R pid Φ (f a) c') :
    RunsAlone R pid Φ (canvas o >>= f) c := by
  subst hc
  refine solo_perform fun s _ _ _ env calm => ?_
  have run : machine.exec env (.canvas o) c.world = _ := Op.exec_calm calm _ _
  exact ⟨a, by rw [run]; exact answer, h _ (by rw [Config.after_world, run]; rfl)⟩

theorem alone_tryTask {o : TaskOp} {f : Except Err o.Resp → Script α} (hc : c.world = w)
    (h : ∀ env c', c'.world = { w with tasks := (o.run env w.tasks).2 } →
      RunsAlone R pid Φ (f (o.run env w.tasks).1) c') : RunsAlone R pid Φ (tryTask o >>= f) c := by
  subst hc
  refine solo_attempt fun s _ _ _ env calm => ?_
  have run : machine.exec env (.task o) c.world = _ := Op.exec_calm calm _ _
  have after := h env (c.after pid env (.task o)) (by rw [Config.after_world, run]; rfl)
  rw [run]
  exact after

theorem alone_tryHook {o : HookOp} {f : Except Err o.Resp → Script α} (hc : c.world = w)
    (h : ∀ env c', c'.world = { w with hooks := (o.run env w.hooks).2 } →
      RunsAlone R pid Φ (f (o.run env w.hooks).1) c') : RunsAlone R pid Φ (tryHook o >>= f) c := by
  subst hc
  refine solo_attempt fun s _ _ _ env calm => ?_
  have run : machine.exec env (.hook o) c.world = _ := Op.exec_calm calm _ _
  have after := h env (c.after pid env (.hook o)) (by rw [Config.after_world, run]; rfl)
  rw [run]
  exact after

/-- A node is stored, and its metric recorded. -/
theorem updateNode_alone (node : WorkflowNodeExecution) (expected : WorkflowNodeExecutionStatus) (hc : c.world = w) :
    RunsAlone R pid (fun r c' => r = .ok (Canvas.updateWorkflowNodeExecution node expected w.canvas).1 ∧
      c'.world = { w with canvas := (Canvas.updateWorkflowNodeExecution node expected w.canvas).2 }) (updateNode node expected) c := by
  unfold updateNode
  refine alone_canvas hc rfl fun c' hc' => ?_
  have recorded : ∀ event, RunsAlone R pid (fun r c' => r = .ok (Canvas.updateWorkflowNodeExecution node expected w.canvas).1 ∧
      c'.world = { w with canvas := (Canvas.updateWorkflowNodeExecution node expected w.canvas).2 })
      (record event >>= fun _ => pure (Canvas.updateWorkflowNodeExecution node expected w.canvas).1) c' :=
    fun event => alone_sys hc' fun _ _ hc'' => solo_ret ⟨rfl, hc''⟩
  split
  · split
    · exact recorded _
    · exact recorded _
    · exact recorded _
    · exact recorded _
    · exact solo_ret ⟨rfl, hc'⟩
  · exact solo_ret ⟨rfl, hc'⟩

/-- Only the row differs, among the nodes; nothing else does. -/
structure OnlyRow (row : WorkflowNodeExecution) (w w' : World) : Prop where
  tasks : w'.tasks = w.tasks
  hooks : w'.hooks = w.hooks
  executions : w'.canvas.executions = w.canvas.executions
  others : ∀ n ∈ w.canvas.nodes, n.workflowExecutionID ≠ row.workflowExecutionID ∨ n.id ≠ row.id → n ∈ w'.canvas.nodes

theorem OnlyRow.refl (row : WorkflowNodeExecution) (w : World) : OnlyRow row w w := ⟨rfl, rfl, rfl, fun _ hn _ => hn⟩

theorem onlyRow_update {row node : WorkflowNodeExecution} (same : SameNode row node) (expected : WorkflowNodeExecutionStatus)
    (w : World) : OnlyRow row w { w with canvas := (Canvas.updateWorkflowNodeExecution node expected w.canvas).2 } := by
  refine ⟨rfl, rfl, rfl, fun n hn other => Table.mem_update.2 ⟨n, hn, if_neg ?_⟩⟩
  simp only [Bool.and_eq_true, decide_eq_true_eq, not_and]
  rintro ⟨⟨-, execution⟩, id⟩
  rcases other with other | other
  · exact absurd (execution.trans same.workflowExecutionID) other
  · exact absurd (id.trans same.id) other

/-- The row that a node is stored over is there. -/
theorem stored_update {row node : WorkflowNodeExecution} {s : Canvas.Store} (same : SameNode row node) (hrow : row ∈ s.nodes) :
    node ∈ (Canvas.updateWorkflowNodeExecution node row.status s).2.nodes := by
  refine Table.mem_update.2 ⟨row, hrow, ?_⟩
  rw [if_pos (by simp [same.orgID, same.workflowExecutionID, same.id]), overwrite_eq same]

/-- What was observed of a stored row is stored when it differs. -/
theorem storeObserved_alone {row node : WorkflowNodeExecution} (same : SameNode row node) (now : Time) (hc : c.world = w)
    (hrow : row ∈ w.canvas.nodes) :
    RunsAlone R pid (fun r c' => (∃ updated, r = .ok updated) ∧ OnlyRow row w c'.world ∧
      (node.status ≠ row.status → { node with updatedAt := now } ∈ c'.world.canvas.nodes)) (storeObserved row node now) c := by
  unfold storeObserved
  have same : SameNode row { node with updatedAt := now } :=
    ⟨same.id, same.orgID, same.workflowExecutionID, same.nodeID, same.nodeType, same.createdAt⟩
  split
  · refine (updateNode_alone _ _ hc).imp ?_
    rintro _ c' - ⟨rfl, hc'⟩
    rw [hc']
    exact ⟨⟨_, rfl⟩, onlyRow_update same _ _, fun _ => stored_update same hrow⟩
  · rename_i differs
    refine solo_ret ⟨⟨_, rfl⟩, ?_, fun changed => absurd (Or.inl changed) differs⟩
    rw [hc]
    exact .refl _ _

/-- What the task of the row says was stored in `w'`, when it changes the status of the row. -/
def Mirrored (x : WorkflowExecution) (row : WorkflowNodeExecution) (w w' : World) : Prop :=
  ∀ id task, row.queueTaskID = some id → Tasks.getByID x.orgID id w.tasks = .ok task → ∃ now,
    (mirrorTask row task now).status ≠ row.status → { mirrorTask row task now with updatedAt := now } ∈ w'.canvas.nodes

/-- What AdvanceExecution makes of a row, when it is not a claim to recover. -/
theorem reconcileNode_alone {h : Host} {d : WorkflowDefinition} {x : WorkflowExecution} {row : WorkflowNodeExecution}
    (linked : row.status = .running → row.queueTaskID ≠ none ∨ row.webhookDeliveryID ≠ none) (hc : c.world = w)
    (hrow : row ∈ w.canvas.nodes) :
    RunsAlone R pid (fun r c' => (∃ updated, r = .ok (updated, x)) ∧ OnlyRow row w c'.world ∧ Mirrored x row w c'.world) (reconcileNode h d x row) c := by
  unfold reconcileNode
  refine alone_sys hc fun now c1 hc1 => ?_
  have store : ∀ {node c'}, c'.world = w → SameNode row node →
      (∀ id task, row.queueTaskID = some id → Tasks.getByID x.orgID id w.tasks = .ok task → node = mirrorTask row task now) →
      RunsAlone R pid (fun r c' => (∃ updated, r = .ok (updated, x)) ∧ OnlyRow row w c'.world ∧ Mirrored x row w c'.world)
        (storeObserved row node now >>= fun updated => pure (updated, x)) c' := by
    intro node c' hc' same mirrors
    refine Solo.bind (storeObserved_alone same now hc' hrow) ?_ ?_
    · rintro updated c' ⟨-, only, stored⟩
      refine solo_ret ⟨⟨updated, rfl⟩, only, fun id task link found => ⟨now, ?_⟩⟩
      rw [← mirrors id task link found]
      exact stored
    · rintro e c' ⟨⟨updated, heq⟩, -⟩
      cases heq
  split
  · rename_i taskID link
    refine alone_tryTask hc1 fun env c2 hc2 => ?_
    simp only [TaskOp.run] at hc2 ⊢
    have mine : ∀ {id}, row.queueTaskID = some id → id = taskID := fun other => by
      rw [link] at other
      exact (Option.some.inj other).symm
    cases found : Tasks.getByID x.orgID taskID w.tasks with
    | error e =>
      have missing : e = .taskNotFound := by
        unfold Tasks.getByID at found
        split at found
        · cases found
        · exact (Except.error.inj found).symm
      subst missing
      refine solo_ret ⟨⟨false, rfl⟩, hc2 ▸ .refl _ _, fun id task other found' => ?_⟩
      rw [mine other, found] at found'
      cases found'
    | ok task =>
      refine store hc2 (mirrorTask_observed row task now).same fun id task' other found' => ?_
      rw [mine other, found] at found'
      cases found'
      rfl
  · rename_i deliveryID none link
    have unlinked : ∀ {id : UUID}, row.queueTaskID = some id → False := fun link => by rw [none] at link; cases link
    refine alone_tryHook hc1 fun env c2 hc2 => ?_
    simp only [HookOp.run] at hc2 ⊢
    cases found : Webhooks.getWebhookDelivery x.orgID deliveryID w.hooks with
    | error e =>
      have missing : e = .webhookDeliveryNotFound := by
        unfold Webhooks.getWebhookDelivery at found
        split at found
        · cases found
        · exact (Except.error.inj found).symm
      subst missing
      exact solo_ret ⟨⟨false, rfl⟩, hc2 ▸ .refl _ _, fun _ _ other _ => (unlinked other).elim⟩
    | ok delivery =>
      exact store hc2 (mirrorDelivery_observed row delivery now).same fun _ _ other _ => (unlinked other).elim
  · rename_i none none'
    have unlinked : ∀ {id : UUID}, row.queueTaskID = some id → False := fun link => by rw [none] at link; cases link
    split
    · refine store hc1 ?_ fun _ _ other _ => (unlinked other).elim
      unfold resumeDelay
      split <;> exact ⟨rfl, rfl, rfl, rfl, rfl, rfl⟩
    · split
      · rename_i running
        rcases linked running with linked | linked
        · exact absurd none linked
        · exact absurd none' linked
      · exact store hc1 (.refl row) fun _ _ other _ => (unlinked other).elim

/-- The open rows were observed one after the other. -/
structure Reconciled (x : WorkflowExecution) (rows : List WorkflowNodeExecution) (w w' : World) : Prop where
  tasks : w'.tasks = w.tasks
  others : ∀ n ∈ w.canvas.nodes, (∀ row ∈ rows, n.workflowExecutionID ≠ row.workflowExecutionID ∨ n.id ≠ row.id) →
    n ∈ w'.canvas.nodes
  mirrored : ∀ row ∈ rows, row.status = .queued ∨ row.status = .running → Mirrored x row w w'

theorem reconcileExternalNodes_alone {h : Host} {d : WorkflowDefinition} {x : WorkflowExecution}
    {rows : List WorkflowNodeExecution} (linked : ∀ row ∈ rows, row.status = .running →
      row.queueTaskID ≠ none ∨ row.webhookDeliveryID ≠ none) (distinct : (rows.map (·.id)).Nodup) (changed : Bool)
    (hc : c.world = w) (hrows : ∀ row ∈ rows, row ∈ w.canvas.nodes) :
    RunsAlone R pid (fun r c' => (∃ changed, r = .ok (changed, x)) ∧ Reconciled x rows w c'.world)
      (reconcileExternalNodes h d rows changed x) c := by
  induction rows generalizing changed c w with
  | nil =>
    refine solo_ret ⟨⟨changed, rfl⟩, by rw [hc], fun n hn _ => hc ▸ hn, fun row hrow => ?_⟩
    cases hrow
  | cons row rows ih =>
    obtain ⟨new, distinct⟩ := List.nodup_cons.1 distinct
    have apart : ∀ other ∈ rows, other.id ≠ row.id := fun other ho same =>
      new (List.mem_map.2 ⟨other, ho, same⟩)
    have linked' := fun other ho => linked other (List.mem_cons_of_mem row ho)
    unfold reconcileExternalNodes
    split
    · refine Solo.bind (reconcileNode_alone (linked row List.mem_cons_self) hc (hrows row List.mem_cons_self)) ?_ ?_
      · rintro ⟨updated, y⟩ c1 ⟨⟨_, heq⟩, only, mirrored⟩
        cases heq
        have rest := ih linked' distinct (changed || updated) rfl fun other ho =>
          only.others other (hrows other (List.mem_cons_of_mem row ho)) (Or.inr (apart other ho))
        refine Solo.imp rest ?_
        rintro r c2 - ⟨result, all⟩
        refine ⟨result, all.tasks.trans only.tasks, fun n hn others => ?_, fun other ho opened => ?_⟩
        · exact all.others n (only.others n hn (others row List.mem_cons_self)) fun other ho =>
            others other (List.mem_cons_of_mem row ho)
        · rcases List.mem_cons.1 ho with rfl | ho
          · intro id task link found
            obtain ⟨now, stored⟩ := mirrored id task link found
            refine ⟨now, fun changed => all.others _ (stored changed) fun row ho => Or.inr fun same => apart row ho ?_⟩
            exact same.symm.trans (mirrorTask_observed other task now).same.id
          · have := all.mirrored other ho opened
            unfold Mirrored at this ⊢
            rw [only.tasks] at this
            exact this
      · rintro e c1 ⟨⟨_, heq⟩, -⟩
        cases heq
    · rename_i closed
      refine Solo.imp (ih linked' distinct changed hc fun other ho => hrows other (List.mem_cons_of_mem row ho)) ?_
      rintro r c2 - ⟨result, all⟩
      refine ⟨result, all.tasks, fun n hn others => all.others n hn fun other ho => others other (List.mem_cons_of_mem row ho),
        fun other ho opened => ?_⟩
      rcases List.mem_cons.1 ho with rfl | ho
      · exact absurd opened closed
      · exact all.mirrored other ho opened

end Rules

/-! ### AdvanceExecution -/

section Advance
variable {h : Host} {w : World} {s : State} {pid : Nat}

/-- The rows of executions may have been marked or touched; everything else is as it was. -/
structure OnlyExecutions (w w' : World) : Prop where
  tasks : w'.tasks = w.tasks
  hooks : w'.hooks = w.hooks
  nodes : w'.canvas.nodes = w.canvas.nodes
  versions : w'.canvas.versions = w.canvas.versions
  kept : ∀ x ∈ w.canvas.executions, x.status.terminal = false →
    ∃ x' ∈ w'.canvas.executions, SameExecution x x' ∧ x'.status.terminal = false

theorem OnlyExecutions.refl (w : World) : OnlyExecutions w w :=
  ⟨rfl, rfl, rfl, rfl, fun x hx live => ⟨x, hx, .refl x, live⟩⟩

theorem onlyExecutions_update {x : WorkflowExecution} (running : x.status = .running) (expected : List WorkflowExecutionStatus)
    (w : World) : OnlyExecutions w { w with canvas := (Canvas.updateWorkflowExecution x expected w.canvas).2 } := by
  refine ⟨rfl, rfl, rfl, rfl, fun row hrow live => ?_⟩
  refine ⟨_, Table.mem_update.2 ⟨row, hrow, rfl⟩, ?_⟩
  split
  · exact ⟨⟨rfl, rfl, rfl, rfl, rfl, rfl, rfl, rfl, rfl⟩, by rw [Canvas.revise, running]; rfl⟩
  · exact ⟨.refl row, live⟩

/-- The execution is stored as `r` and has not ended. -/
structure Underway (x : WorkflowExecution) (d : WorkflowDefinition) (r : Run) (c : Config machine) : Prop where
  stored : runOf c.world.canvas x.id = some r
  same : SameExecution x r.execution
  pinned : definitionOf c.world.canvas r.execution = some d
  inv : RunInv ⟨d, False, Done c.world⟩ r
  live : r.execution.status.terminal = false

/-- The rows that are read are those of the execution. -/
theorem Underway.rows {x : WorkflowExecution} {d : WorkflowDefinition} {r : Run} {c : Config machine} (run : Underway x d r c) :
    (Canvas.getWorkflowNodeExecutions x.orgID x.id c.world.canvas).Perm r.nodes :=
  getWorkflowNodeExecutions_perm run.stored run.inv run.same.orgID

theorem underway_of_mem (fresh : w.Fresh) (reach : Reachable h anything w s) {x : WorkflowExecution} {v : WorkflowVersion}
    (hx : x ∈ s.config.world.canvas.executions) (live : x.status.terminal = false) (hv : v ∈ s.config.world.canvas.versions)
    (pins : v.id = x.workflowVersionID) : ∃ r, Underway x v.definition r s.config := by
  have inv := canvas_inv fresh reach
  have hr := inv.runOf_of_mem hx
  have pinned : definitionOf s.config.world.canvas x = some v.definition := by
    unfold definitionOf
    rw [Table.find?_unique inv.versions hv (by simp [pins]) fun q chosen => (of_decide_eq_true chosen).trans pins.symm]
    rfl
  obtain ⟨d, pinned', run⟩ := inv.runs _ _ hr
  rw [pinned] at pinned'
  cases pinned'
  exact ⟨_, hr, .refl x, pinned, run, live⟩

theorem Underway.of_same {x y : WorkflowExecution} {d : WorkflowDefinition} {r : Run} {c : Config machine}
    (run : Underway x d r c) (same : SameExecution x y) : Underway y d r c :=
  ⟨by rw [same.id]; exact run.stored, same.symm.trans run.same, run.pinned, run.inv, run.live⟩

theorem markRunning_alone {R : State → Prop} {c : Config machine} {x : WorkflowExecution} (live : x.status.terminal = false)
    (hc : c.world = w) : RunsAlone R pid (fun r c' => ∃ y, r = .ok y ∧ SameExecution x y ∧ y.status = .running ∧
      OnlyExecutions w c'.world) (markRunning x) c := by
  unfold markRunning
  split
  · refine alone_sys hc fun now c1 hc1 => ?_
    refine alone_canvas hc1 rfl fun c2 hc2 => ?_
    have started : SameExecution x (startedAs x now) := ⟨rfl, rfl, rfl, rfl, rfl, rfl, rfl, rfl, rfl⟩
    have only : OnlyExecutions w c2.world := by
      rw [hc2]
      exact onlyExecutions_update rfl _ _
    split
    · refine alone_sys rfl fun _ c3 hc3 => solo_ret ⟨_, rfl, started, rfl, ?_⟩
      rw [hc3]
      exact only
    · exact solo_ret ⟨_, rfl, started, rfl, only⟩
  · rename_i pending
    refine solo_ret ⟨x, rfl, .refl x, ?_, hc ▸ .refl _⟩
    cases status : x.status with
    | running => rfl
    | pending => exact absurd status pending
    | succeeded | failed | cancelled =>
      rw [status] at live
      cases live

/-- The execution is read, its version, and it is marked running. -/
theorem advanceExecution_alone {Φ : Except Err Unit → Config machine → Prop} (fresh : w.Fresh)
    (reach : Reachable h anything w s) {x : WorkflowExecution} (hx : x ∈ s.config.world.canvas.executions)
    (live : x.status.terminal = false)
    (loop : ∀ c d y r, Underway y d r c → SameExecution x y → y.status = .running → OnlyExecutions s.config.world c.world →
      RunsAlone (Reachable h anything w) pid Φ (advanceLoop h d (d.nodeList.length + 2) y) c) :
    RunsAlone (Reachable h anything w) pid Φ (advanceExecution h x.orgID x.workflowID x.id) s.config := by
  have inv := canvas_inv fresh reach
  obtain ⟨v, hv, pins⟩ := inv.pins _ _ (inv.runOf_of_mem hx)
  have found : Canvas.getWorkflowExecution x.orgID x.workflowID x.id s.config.world.canvas = .ok x := by
    unfold Canvas.getWorkflowExecution
    rw [Table.find?_unique inv.ids hx (by simp) fun q chosen => ?_]
    simp only [Bool.and_eq_true, decide_eq_true_eq] at chosen
    exact chosen.2
  have version : Canvas.getWorkflowExecutionVersion x.orgID x.workflowID x.workflowVersionID s.config.world.canvas = .ok v := by
    unfold Canvas.getWorkflowExecutionVersion
    rw [Table.find?_unique inv.versions hv (by simp [pins.id, pins.orgID, pins.workflowID]) fun q chosen => ?_]
    simp only [Bool.and_eq_true, decide_eq_true_eq] at chosen
    exact chosen.2.trans pins.id.symm
  unfold advanceExecution
  refine alone_canvas rfl found fun c1 hc1 => ?_
  rw [live]
  refine alone_canvas hc1 version fun c2 hc2 => ?_
  rw [if_neg (by simp [pins.version])]
  refine Solo.bind (markRunning_alone live hc2) ?_ ?_
  · rintro y c3 ⟨_, heq, same, running, only⟩
    cases heq
    refine .assume ?_
    rintro ⟨t, reach', rfl⟩
    obtain ⟨x', hx', same', live'⟩ := only.kept x hx live
    obtain ⟨r, run⟩ := underway_of_mem fresh reach' hx' live' (only.versions ▸ hv) (pins.id.trans same'.workflowVersionID.symm)
    exact loop _ v.definition y r (run.of_same (same'.symm.trans same)) same running only
  · rintro e c3 ⟨_, heq, -⟩
    cases heq

/-- What the first call of the clock answers is known. -/
theorem alone_sys_eq {α : Type} {o : SysOp} {f : o.Resp → Script α} (env : Nat → Env) (w : World) :
    Prog.alone (M := machine) env (sys o >>= f) w = Prog.alone (M := machine) (fun i => env (i + 1)) (f (o.run (env 0))) w := by
  simp [Prog.alone, perform]

/-- A program that runs alone from any world. -/
theorem alone_anywhere {α : Type} {Φ : Except Err α → World → Prop} {p : Script α}
    (runs : RunsAlone (fun _ => True) 0 (fun r c => Φ r c.world) p ⟨w, []⟩) (env : Nat → Env) (calm : ∀ i, (env i).fault = none) :
    Φ (Prog.alone (M := machine) env p w).1 (Prog.alone (M := machine) env p w).2 := by
  let s : State := ⟨⟨w, []⟩, [⟨.processDue, p >>= fun _ => pure .unit, true⟩]⟩
  have next : ∀ s t env, True → env.fault = none → System.next (fun _ : Request => p >>= fun _ => pure Outcome.unit) s (.step 0 env) =
      some t → True := fun _ _ _ _ _ _ => trivial
  obtain ⟨t, -, after, ended⟩ := Solo.alone (s := s) next rfl trivial runs env calm
  rw [← after]
  exact ended

/-- A request that is served now, alone. -/
theorem alone_of_runs {α : Type} {Φ : Except Err α → Config machine → Prop} (reach : Reachable h anything w s)
    (request : Request) {p : Script α} {K : α → Script Outcome} (serves : body h request = p >>= K)
    (runs : RunsAlone (Reachable h anything w) s.procs.length Φ p s.config) (env : Nat → Env) (calm : ∀ i, (env i).fault = none) :
    ∃ t, Reachable h anything w t ∧ t.config.world = (Prog.alone (M := machine) env p s.config.world).2 ∧
      Φ (Prog.alone (M := machine) env p s.config.world).1 t.config := by
  have spawned : Reachable h anything w ⟨s.config, s.procs ++ [⟨request, body h request, true⟩]⟩ :=
    .next (.spawn request) reach trivial rfl
  have last : (s.procs ++ [⟨request, body h request, true⟩])[s.procs.length]? = some ⟨request, p >>= K, true⟩ := by
    rw [← serves]
    exact List.getElem?_concat_length
  exact Solo.alone (fun s t env reach _ taken => .next _ reach trivial taken) last spawned runs env calm

/-- A node that ended stays as it is, whatever the process does. -/
theorem ended_alone {α : Type} (fresh : w.Fresh) {n : WorkflowNodeExecution} (ended : n.status.terminal = true) (p : Script α)
    {c : Config machine} (hn : n ∈ c.world.canvas.nodes) :
    RunsAlone (Reachable h anything w) pid (fun _ c => n ∈ c.world.canvas.nodes) p c :=
  Prog.solo_keeps (fun _ reach _ env calling _ hn => node_stays fresh reach calling env hn ended) p hn

/-- The nodes that are read are the stored ones. -/
theorem mem_getWorkflowNodeExecutions {orgID executionID : UUID} {c : Canvas.Store} {n : WorkflowNodeExecution} :
    n ∈ Canvas.getWorkflowNodeExecutions orgID executionID c ↔ n ∈ c.nodes ∧ n.orgID = orgID ∧ n.workflowExecutionID = executionID := by
  unfold Canvas.getWorkflowNodeExecutions
  rw [(Table.firstBy_perm (List.length_filter_le _ _)).mem_iff, List.mem_filter]
  simp

end Advance
end Windylane
