import Windylane.Theorems.Requests

/-! What holds of executions in every run: an execution that ended never changes, nothing starts before what it
    depends on is resolved, and a node that succeeded has its work done. -/

namespace Windylane

open Conc

/-! ### A run of the sample workflow -/

/-- An execution is started with the input its gate asks for, a worker completes the task behind the gate, and
    the execution is advanced once more. -/
def gateRun : List (Action machine Request) :=
  [.spawn (.startExecution (sampleStart (.json (.obj [("go", .bool true)]))))] ++ steps 0 0 (idsFrom 100 63) ++
    [.spawn (.dispatch ⟨1⟩ "jobs" "w")] ++ steps 1 0 (idsFrom 300 12) ++
    [.spawn (.advanceExecution ⟨1⟩ ⟨2⟩ ⟨103⟩)] ++ steps 2 0 (idsFrom 500 12)

theorem gateRun_ends : ∃ s r, (System.init gateWorld).run (body sampleHost) gateRun = some s ∧
    runOf s.config.world.canvas ⟨103⟩ = some r ∧ definitionOf s.config.world.canvas r.execution = some sampleDefinition ∧
    r.execution.status = .succeeded ∧
    r.nodes.map (fun n => (n.nodeID, n.nodeType, n.status)) =
      [("start", .trigger, .succeeded), ("gate", .condition, .succeeded), ("work", .task, .succeeded)] ∧
    (s.config.trace.all fun e => !e.op.recovers) = true :=
  ⟨_, _, rfl, rfl, rfl, rfl, rfl, rfl⟩

section Runs
variable {h : Host} {w : World} {s t : State} {executionID : UUID} {r : Run}

/-- Every action moves the executions by one step. -/
theorem canvas_next {allow : State → Action machine Request → Prop} (fresh : w.Fresh) (reach : Reachable h allow w s)
    {a : Action machine Request} (taken : s.next (body h) a = some t) :
    CanvasStep False (Done s.config.world) s.config.world.canvas t.config.world.canvas := by
  rcases System.next_cases taken with ⟨request, -, rfl⟩ | ⟨pid, env, request, o, k, -, hp, rfl⟩ | ⟨pid, p, -, hp, rfl⟩
  · exact .stay
  · obtain ⟨inv, meets⟩ := executions_run False fresh (fun hs => hs.elim) reach
    have granted : (executionRules False).granted pid s.config o env :=
      ⟨fun d hd hs => delivered_step fresh reach ⟨request, k, hp⟩ env hd hs, fun hs => hs.elim⟩
    exact (meets.may (executionRules False) (Request.promise False) inv hp env granted).1 env
  · exact .stay

theorem reachable_inv (fresh : w.Fresh) (reach : Reachable h anything w s) :
    CanvasInv False (Done s.config.world) s.config.world.canvas :=
  (executions_run False fresh (fun hs => hs.elim) reach).1.canvas

/-! ### Executions that ended -/

theorem ended_kept (fresh : w.Fresh) (reach : Reachable h anything w s) (hr : runOf s.config.world.canvas executionID = some r)
    (ended : r.execution.status.terminal = true) (later : System.Reach (body h) anything s t) :
    runOf t.config.world.canvas executionID = some r := by
  refine later.invariant (fun t : State => runOf t.config.world.canvas executionID = some r) hr ?_
  intro t t' a prior hr _ taken
  have reach' := reach.trans prior
  obtain ⟨d, pinned, run⟩ := (reachable_inv fresh reach').runs executionID r hr
  obtain ⟨r', hr', rfl | ⟨d', pinned', step⟩⟩ := (canvas_next fresh reach' taken).runOf hr
  · exact hr'
  · rw [pinned] at pinned'
    cases pinned'
    rw [hr', step.frozen run ended]

/-- An execution that ended is closed: no node is open, and when it succeeded every node of its version has one row,
    succeeded or skipped. -/
structure Closed (d : WorkflowDefinition) (r : Run) : Prop where
  nodes : ∀ n ∈ r.nodes, n.status ≠ .pending ∧ n.status ≠ .queued ∧ n.status ≠ .running
  succeeded : r.execution.status = .succeeded → ∀ n ∈ r.nodes, n.status = .succeeded ∨ n.status = .skipped
  rows : ∀ m ∈ d.nodeList, (r.nodes.filter fun n => n.nodeID = m.id).length = 1
  owned : ∀ n ∈ r.nodes, ∃ m ∈ d.nodeList, m.id = n.nodeID

theorem RunInv.closed_of_ended {g : Rules} (inv : RunInv g r) (ended : r.execution.status.terminal = true) :
    Closed g.definition r where
  nodes := fun n hn => by
    have := inv.closed ended n hn
    cases hs : n.status <;> simp [hs, WorkflowNodeExecutionStatus.terminal] at this ⊢
  succeeded := inv.complete
  rows := fun m hm => by
    obtain ⟨n, hn, hid, -⟩ := inv.row_of_node hm
    have once : (r.nodes.map (·.nodeID)).count n.nodeID = 1 :=
      List.count_eq_one_of_mem inv.nodeIDs (List.mem_map_of_mem hn)
    rw [List.count, List.countP_map, List.countP_eq_length_filter, hid] at once
    exact once
  owned := fun n hn => by
    obtain ⟨m, hm, hid, -⟩ := inv.node_of_row hn
    exact ⟨m, hm, hid⟩

theorem terminal_frozen (fresh : w.Fresh) (reach : Reachable h anything w s)
    (hr : runOf s.config.world.canvas executionID = some r) (ended : r.execution.status.terminal = true) :
    (∃ d, definitionOf s.config.world.canvas r.execution = some d ∧ Closed d r) ∧
      ∀ t, System.Reach (body h) anything s t → runOf t.config.world.canvas executionID = some r := by
  obtain ⟨d, pinned, run⟩ := (reachable_inv fresh reach).runs executionID r hr
  exact ⟨⟨d, pinned, run.closed_of_ended ended⟩, fun t later => ended_kept fresh reach hr ended later⟩

theorem gateRun_frozen : ∃ s r, (System.init gateWorld).run (body sampleHost) gateRun = some s ∧
    runOf s.config.world.canvas ⟨103⟩ = some r ∧ r.execution.status = .succeeded ∧
    (∃ d, definitionOf s.config.world.canvas r.execution = some d ∧ Closed d r) ∧
      ∀ t, System.Reach (body sampleHost) anything s t → runOf t.config.world.canvas ⟨103⟩ = some r := by
  obtain ⟨s, r, run, hr, -, succeeded, -, -⟩ := gateRun_ends
  exact ⟨s, r, run, hr, succeeded,
    terminal_frozen gateWorld_fresh (System.reach_of_run (fun _ _ _ => trivial) run) hr (by rw [succeeded]; rfl)⟩

/-! ### Dependencies -/

theorem dependencies_resolved (fresh : w.Fresh) (reach : Reachable h anything w s)
    (hr : runOf s.config.world.canvas executionID = some r) {d : WorkflowDefinition}
    (pinned : definitionOf s.config.world.canvas r.execution = some d) {n : WorkflowNodeExecution} (hn : n ∈ r.nodes)
    (type : n.nodeType ≠ .trigger) (started : n.status ≠ .pending ∧ n.status ≠ .cancelled) {e : WorkflowEdge}
    (he : e ∈ d.edgeList) (target : e.target = n.nodeID) :
    ∃ p ∈ r.nodes, p.nodeID = e.source ∧ (p.status = .succeeded ∨ p.status = .skipped) := by
  obtain ⟨d', pinned', run⟩ := (reachable_inv fresh reach).runs executionID r hr
  rw [pinned] at pinned'
  cases pinned'
  obtain ⟨m, hm, hid, hty⟩ := run.node_of_row hn
  have incoming : e ∈ d.incoming m.id := List.mem_filter.2 ⟨he, by simpa using target.trans hid.symm⟩
  have resolved : Resolved r.nodes e.source := by
    rcases (run.rows n hn).ready started.1 started.2 m hm hid with (trigger | ⟨-, resolved, -⟩) | ⟨-, resolved, -⟩
    · exact absurd (hty.symm.trans trigger) type
    · exact resolved e incoming
    · exact resolved e incoming
  obtain ⟨p, hp, status⟩ := resolved
  obtain ⟨hp, hid⟩ := (stateOf_eq_some run.nodeIDs).1 hp
  exact ⟨p, hp, hid, status⟩

theorem gateRun_resolved : ∃ s r n, (System.init gateWorld).run (body sampleHost) gateRun = some s ∧
    runOf s.config.world.canvas ⟨103⟩ = some r ∧ n ∈ r.nodes ∧ n.nodeID = "work" ∧
    ∃ p ∈ r.nodes, p.nodeID = "gate" ∧ (p.status = .succeeded ∨ p.status = .skipped) := by
  obtain ⟨s, r, run, hr, pinned, -, rows, -⟩ := gateRun_ends
  have hw : ("work", .task, .succeeded) ∈ r.nodes.map (fun n => (n.nodeID, n.nodeType, n.status)) := by
    rw [rows]
    simp
  obtain ⟨n, hn, he⟩ := List.mem_map.1 hw
  simp only [Prod.mk.injEq] at he
  obtain ⟨hid, type, status⟩ := he
  have edge : (⟨"e2", "gate", "work", .json (.obj [("branch", .bool true)])⟩ : WorkflowEdge) ∈ sampleDefinition.edgeList :=
    List.mem_cons_of_mem _ List.mem_cons_self
  exact ⟨s, r, n, run, hr, hn, hid, dependencies_resolved gateWorld_fresh
    (System.reach_of_run (fun _ _ _ => trivial) run) hr pinned hn (by simp [type]) (by simp [status]) edge hid.symm⟩

/-! ### Work -/

theorem done_kept (fresh : w.Fresh) (reach : Reachable h anything w s) {n : WorkflowNodeExecution}
    (done : Done s.config.world n) (later : System.Reach (body h) anything s t) : Done t.config.world n := by
  refine later.invariant (fun t : State => Done t.config.world n) done ?_
  intro t t' a prior done _ taken
  have reach' := reach.trans prior
  have inv := (executions_run False fresh (fun hs => hs.elim) reach').1
  rcases System.next_cases taken with ⟨request, -, rfl⟩ | ⟨pid, env, request, o, k, -, hp, rfl⟩ | ⟨pid, p, -, hp, rfl⟩
  · exact done
  · exact done.kept (fun _ ht hs => completed_kept inv.tasks ht hs env o)
      fun d hd hs => delivered_step fresh reach' ⟨request, k, hp⟩ env hd hs
  · exact done

theorem succeeded_work_done (fresh : w.Fresh) (reach : Reachable h anything w s)
    (hr : runOf s.config.world.canvas executionID = some r) (later : System.Reach (body h) anything s t) :
    (∀ n ∈ r.nodes, n.status = .succeeded → Done t.config.world n) ∧
      (r.execution.status = .succeeded → ∀ n ∈ r.nodes, n.status ≠ .skipped → Done t.config.world n) := by
  obtain ⟨d, pinned, run⟩ := (reachable_inv fresh reach).runs executionID r hr
  have work : ∀ n ∈ r.nodes, n.status = .succeeded → Done t.config.world n := fun n hn hs =>
    done_kept fresh reach ((run.rows n hn).work hs) later
  refine ⟨work, fun succeeded n hn skipped => ?_⟩
  rcases run.complete succeeded n hn with hs | hs
  · exact work n hn hs
  · exact absurd hs skipped

theorem gateRun_done : ∃ s r, (System.init gateWorld).run (body sampleHost) gateRun = some s ∧
    runOf s.config.world.canvas ⟨103⟩ = some r ∧ r.nodes.map (fun n => (n.nodeType, n.status)) =
      [(.trigger, .succeeded), (.condition, .succeeded), (.task, .succeeded)] ∧
    (∀ n ∈ r.nodes, n.status = .succeeded → Done s.config.world n) ∧
      (r.execution.status = .succeeded → ∀ n ∈ r.nodes, n.status ≠ .skipped → Done s.config.world n) := by
  obtain ⟨s, r, run, hr, -, -, rows, -⟩ := gateRun_ends
  have rows : r.nodes.map (fun n => (n.nodeType, n.status)) =
      [(.trigger, .succeeded), (.condition, .succeeded), (.task, .succeeded)] := by
    simpa [Function.comp_def] using congrArg (List.map Prod.snd) rows
  exact ⟨s, r, run, hr, rows,
    succeeded_work_done gateWorld_fresh (System.reach_of_run (fun _ _ _ => trivial) run) hr .refl⟩

end Runs

end Windylane
