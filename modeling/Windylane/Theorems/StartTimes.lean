import Windylane.Theorems.Records

/-! The start time of an execution. The process that loses the step from pending to running goes on with the time that
    it read itself, and stores it when it touches or ends the execution; so the start time is written once only if no
    process loses that step. -/

namespace Windylane

open Conc Script Prog

/-- Whoever marks an execution as running finds it pending. -/
def FindsPending (s : State) (a : Action machine Request) : Prop :=
  ∀ pid env x, a = .step pid env → s.Calling pid (.canvas (.updateWorkflowExecution x [.pending])) →
    ∀ row ∈ s.config.world.canvas.executions, row.id = x.id → row.status = .pending

/-- The stored start time of the execution. -/
def StartedAt (c : Canvas.Store) (id : UUID) (v : Time) : Prop := ∃ x ∈ c.executions, x.id = id ∧ x.startedAt = some v

/-- A pending execution has no start time, and a running one has. -/
structure Timed (x : WorkflowExecution) : Prop where
  pending : x.status = .pending → x.startedAt = none
  running : x.status = .running → x.startedAt ≠ none

/-- What is known of the start time after a call. -/
def TimeKnown (c : Canvas.Store) : machine.Exchange → Prop
  | ⟨.canvas (.getWorkflowExecution _ _ _), .ok y⟩ => Timed y ∧ ∀ v, y.startedAt = some v → StartedAt c y.id v
  | ⟨.canvas (.updateWorkflowExecution x [.pending]), .ok _⟩ => ∀ v, x.startedAt = some v → StartedAt c x.id v
  | _ => True

section Runs
variable {h : Host} {w : World} {s t : State} {pid : Nat} {o : Op} {allow : State → Action machine Request → Prop}

theorem StartedAt.unique {strict : Prop} {done : WorkflowNodeExecution → Prop} {c : Canvas.Store}
    (inv : CanvasInv strict done c) {id : UUID} {v : Time} (started : StartedAt c id v) {x : WorkflowExecution}
    (hx : x ∈ c.executions) (hid : x.id = id) : x.startedAt = some v := by
  obtain ⟨y, hy, hid', at'⟩ := started
  rw [Table.eq_of_key inv.ids hx hy (hid.trans hid'.symm)]
  exact at'

/-- A copy of a live execution has the start time that is stored. -/
theorem Copy.startedAt {strict : Prop} {done : WorkflowNodeExecution → Prop} {past : List machine.Exchange} {c : Canvas.Store}
    {y row : WorkflowExecution} (copy : Copy past y) (inv : CanvasInv strict done c) (recalled : ∀ e ∈ past, Recalled c e)
    (known : ∀ e ∈ past, TimeKnown c e) (hrow : row ∈ c.executions) (id : row.id = y.id)
    (live : row.status.terminal = false) : y.startedAt = row.startedAt ∧ row.startedAt ≠ none := by
  have found : ∀ v, y.startedAt = some v → StartedAt c y.id v → y.startedAt = row.startedAt ∧ row.startedAt ≠ none := by
    intro v at' started
    have same := started.unique inv hrow id
    exact ⟨at'.trans same.symm, by simp [same]⟩
  rcases copy.of_live inv recalled hrow id live with ⟨⟨_, _, _, read⟩, running⟩ | ⟨z, now, updated, -, -, rfl, stored⟩
  · obtain ⟨timed, started⟩ := known _ read
    obtain ⟨v, at'⟩ := Option.ne_none_iff_exists'.1 (timed.running running)
    exact found v at' (started v at')
  · exact found now rfl (known _ stored now rfl)

/-- A live row keeps its start time, or gets its first one. -/
theorem ExecutionWrite.startedAt (fresh : w.Fresh) (reach : Reachable h allow w s) {row x' : WorkflowExecution}
    (write : ExecutionWrite (history pid s.config.trace) row x') (hrow : row ∈ s.config.world.canvas.executions)
    (live : row.status.terminal = false) (known : ∀ e ∈ history pid s.config.trace, TimeKnown s.config.world.canvas e)
    (timed : Timed row) : Timed x' ∧ ∀ v, row.startedAt = some v → x'.startedAt = some v := by
  have copied : ∀ {y}, Copy (history pid s.config.trace) y → row.id = y.id →
      y.startedAt = row.startedAt ∧ row.startedAt ≠ none :=
    fun copy id => copy.startedAt (canvas_inv fresh reach) (recalled_run fresh reach pid) known hrow id live
  cases write with
  | started read pending id found =>
    refine ⟨⟨nofun, fun _ => nofun⟩, fun v at' => ?_⟩
    rw [timed.pending found] at at'
    cases at'
  | touched copy id _ =>
    obtain ⟨same, some⟩ := copied copy id
    exact ⟨⟨nofun, fun _ => by rw [← same] at some; exact some⟩, fun v at' => same.trans at'⟩
  | succeeded copy id => exact ⟨⟨nofun, nofun⟩, fun v at' => (copied copy id).1.trans at'⟩
  | failed copy id _ => exact ⟨⟨nofun, nofun⟩, fun v at' => (copied copy id).1.trans at'⟩
  | cancelled now => exact ⟨⟨nofun, nofun⟩, fun v at' => at'⟩

/-- The step from pending to running stores its time. -/
theorem markRunning_stored {c : Canvas.Store} {x : WorkflowExecution} {r : Run} (hr : runOf c x.id = some r)
    (org : r.execution.orgID = x.orgID) (pending : r.execution.status = .pending) {v : Time} (at' : x.startedAt = some v) :
    StartedAt (Canvas.updateWorkflowExecution x [.pending] c).2 x.id v := by
  refine ⟨Canvas.revise x r.execution, Table.mem_update.2 ⟨r.execution, runOf_mem hr, if_pos ?_⟩, runOf_id hr, at'⟩
  simp [org, runOf_id hr, pending]

theorem time_answered (fresh : w.Fresh) (reach : Reachable h FindsPending w s) (calling : s.Calling pid o) {env : Env}
    (found : FindsPending s (.step pid env))
    (timed : ∀ x ∈ (o.exec env s.config.world).2.canvas.executions, Timed x) :
    TimeKnown (o.exec env s.config.world).2.canvas ⟨o, (o.exec env s.config.world).1⟩ := by
  generalize answered : (o.exec env s.config.world).1 = answer
  unfold TimeKnown
  split
  · rename_i y heq
    cases heq
    have stored := readExecution_stored answered (y := y) ⟨_, _, _, List.mem_singleton_self _⟩
    exact ⟨timed y stored, fun v at' => ⟨y, stored, rfl, at'⟩⟩
  · rename_i x _ heq
    cases heq
    intro v at'
    obtain ⟨y, now, ⟨read, -, rfl, -⟩ | ⟨-, -, none⟩⟩ := calling_rightful fresh reach calling
    · obtain ⟨r, hr, same⟩ := read.stands (recalled_run fresh reach pid)
      rw [Op.exec_ok answered]
      refine markRunning_stored (x := startedAs y now) hr same.orgID ?_ at'
      exact found pid env _ rfl calling _ (runOf_mem hr) (runOf_id hr)
    · cases none
  · trivial

theorem StartedAt.step (fresh : w.Fresh) (reach : Reachable h allow w s) (calling : s.Calling pid o) (env : Env)
    (known : ∀ e ∈ history pid s.config.trace, TimeKnown s.config.world.canvas e)
    (timed : ∀ x ∈ s.config.world.canvas.executions, Timed x) {id : UUID} {v : Time}
    (started : StartedAt s.config.world.canvas id v) : StartedAt (o.exec env s.config.world).2.canvas id v := by
  obtain ⟨x, hx, hid, at'⟩ := started
  obtain ⟨x', hx', hid', rfl | ⟨live, write⟩⟩ := execution_kept fresh reach calling env hx
  · exact ⟨x', hx', hid, at'⟩
  · exact ⟨x', hx', hid'.trans hid, (write.startedAt fresh reach hx live known (timed x hx)).2 v at'⟩

/-- Every execution has its start time when it runs, and every process knows the stored one. -/
theorem times_run (fresh : w.Fresh) (reach : Reachable h FindsPending w s) :
    (∀ x ∈ s.config.world.canvas.executions, Timed x) ∧
      ∀ pid, ∀ e ∈ history pid s.config.trace, TimeKnown s.config.world.canvas e := by
  refine reach.recalls (W := fun c : Config machine => ∀ x ∈ c.world.canvas.executions, Timed x)
    (K := fun (c : Config machine) e => TimeKnown c.world.canvas e) (fun x hx => by simp [fresh.executions] at hx) ?_
  intro s pid env o reach allowed calling timed known
  have stored : ∀ x ∈ (o.exec env s.config.world).2.canvas.executions, Timed x := by
    intro x hx
    rcases execution_written fresh reach calling env hx with before | ⟨nodes, new, -⟩ | ⟨row, hrow, live, write⟩
    · exact timed x before
    · exact ⟨fun _ => new.startedAt, fun running => by rw [new.status] at running; cases running⟩
    · exact (write.startedAt fresh reach hrow live (known pid) (timed row hrow)).1
  refine ⟨stored, time_answered fresh reach calling allowed stored, fun c answered => ?_⟩
  unfold TimeKnown at answered ⊢
  split at answered
  · exact ⟨answered.1, fun v at' => (answered.2 v at').step fresh reach calling env (known pid) timed⟩
  · exact fun v at' => (answered v at').step fresh reach calling env (known pid) timed
  · trivial

/-- In a run in which nobody loses the step from pending to running, a start time that is stored never changes. -/
theorem start_time_kept (fresh : w.Fresh) (reach : Reachable h FindsPending w s) {executionID : UUID} {r : Run}
    (hr : runOf s.config.world.canvas executionID = some r) {v : Time} (started : r.execution.startedAt = some v)
    (later : System.Reach (body h) FindsPending s t) :
    ∃ r', runOf t.config.world.canvas executionID = some r' ∧ r'.execution.startedAt = some v := by
  have kept : StartedAt t.config.world.canvas executionID v := by
    refine later.invariant (fun t : State => StartedAt t.config.world.canvas executionID v)
      ⟨r.execution, runOf_mem hr, runOf_id hr, started⟩ ?_
    intro u u' a prior started _ taken
    have reach' := reach.trans prior
    obtain ⟨timed, known⟩ := times_run fresh reach'
    rcases System.next_cases taken with ⟨_, -, rfl⟩ | ⟨pid, env, request, o, k, -, hp, rfl⟩ | ⟨_, _, -, -, rfl⟩
    · exact started
    · exact started.step fresh reach' ⟨request, k, hp⟩ env (known pid) timed
    · exact started
  obtain ⟨x, hx, rfl, at'⟩ := kept
  exact ⟨_, (canvas_inv fresh (reach.trans later)).runOf_of_mem hx, at'⟩

end Runs

/-- Two processes read a new execution, and both mark it as running; the second one loses. -/
def racedRun : List (Action machine Request) :=
  [.spawn (.startExecution (sampleStart (.json .null)))] ++ steps 0 0 (idsFrom 100 9) ++
    [.spawn (.advanceExecution ⟨1⟩ ⟨2⟩ ⟨103⟩), .spawn (.advanceExecution ⟨1⟩ ⟨2⟩ ⟨103⟩)] ++
    steps 1 1 (idsFrom 200 2) ++ steps 2 2 (idsFrom 300 2) ++ steps 1 1 (idsFrom 400 2)

/-- The loser carries the execution to its end, with the start time that it read. -/
theorem racedRun_restarts : ∃ s t r r', (System.init gateWorld).run (body sampleHost) racedRun = some s ∧
    s.run (body sampleHost) (steps 2 2 (idsFrom 500 31)) = some t ∧
    runOf s.config.world.canvas ⟨103⟩ = some r ∧ r.execution.startedAt = some 1 ∧
    runOf t.config.world.canvas ⟨103⟩ = some r' ∧ r'.execution.startedAt = some 2 :=
  ⟨_, _, _, _, rfl, rfl, rfl, rfl, rfl, rfl⟩

def findsPending (s : State) : Action machine Request → Bool
  | .step pid _ =>
    match s.procs[pid]? with
    | some ⟨_, .call (.canvas (.updateWorkflowExecution x [.pending])) _, true⟩ =>
      s.config.world.canvas.executions.all fun row => row.id ≠ x.id || row.status = .pending
    | _ => true
  | _ => true

theorem findsPending_sound {s : State} {a : Action machine Request} (found : findsPending s a = true) : FindsPending s a := by
  rintro pid env x rfl ⟨request, k, hp⟩ row hrow hid
  simp only [findsPending, hp, List.all_eq_true] at found
  simpa [hid] using found row hrow

/-- One process starts the execution, and another one touches it later. -/
theorem soleRun_keeps : ∃ s t r, System.runChecked (body sampleHost) findsPending (System.init gateWorld)
      ([.spawn (.startExecution (sampleStart (.json (.obj [("go", .bool true)]))))] ++ steps 0 0 (idsFrom 100 63)) = some s ∧
    s.runChecked (body sampleHost) findsPending
      ([.spawn (.advanceExecution ⟨1⟩ ⟨2⟩ ⟨103⟩)] ++ steps 1 5 (idsFrom 500 8)) = some t ∧
    runOf t.config.world.canvas ⟨103⟩ = some r ∧ r.execution.updatedAt = 5 ∧ r.execution.startedAt = some 0 := by
  have run : ∃ s t r r', System.runChecked (body sampleHost) findsPending (System.init gateWorld)
        ([.spawn (.startExecution (sampleStart (.json (.obj [("go", .bool true)]))))] ++ steps 0 0 (idsFrom 100 63)) = some s ∧
      s.runChecked (body sampleHost) findsPending
        ([.spawn (.advanceExecution ⟨1⟩ ⟨2⟩ ⟨103⟩)] ++ steps 1 5 (idsFrom 500 8)) = some t ∧
      runOf s.config.world.canvas ⟨103⟩ = some r ∧ r.execution.startedAt = some 0 ∧
      runOf t.config.world.canvas ⟨103⟩ = some r' ∧ r'.execution.updatedAt = 5 :=
    ⟨_, _, _, _, rfl, rfl, rfl, rfl, rfl, rfl⟩
  obtain ⟨s, t, r, r', before, after, hr, started, hr', touched⟩ := run
  have sound : ∀ s a, findsPending s a = true → FindsPending s a := fun _ _ found => findsPending_sound found
  obtain ⟨r'', hr'', at'⟩ := start_time_kept gateWorld_fresh (System.reach_of_checked (fun s a _ => sound s a) before) hr started
    (System.reach_of_checked (fun s a _ => sound s a) after)
  rw [hr'] at hr''
  cases hr''
  exact ⟨s, t, r', before, after, hr', touched, at'⟩

end Windylane
