import Windylane.Theorems.Alone
import Windylane.Theorems.Links

/-! What AdvanceExecution learns of the work of its nodes when it runs alone. -/

namespace Windylane

open Conc Script Prog

/-! ### Tasks that ended -/

section Runs
variable {h : Host} {w : World} {s : State}

/-- The task of a node is in its organization. -/
theorem linked_task_org (fresh : w.Fresh) (reach : Reachable h anything w s) {n : WorkflowNodeExecution} {task : Task}
    (hn : n ∈ s.config.world.canvas.nodes) (link : n.queueTaskID = some task.id) (ht : task ∈ s.config.world.tasks) :
    task.orgID = n.orgID := by
  obtain ⟨d, m, config, t, -, -, -, -, only, same⟩ := (workOnce_run fresh reach).task n hn _ link
  have stored : t ∈ nodeTasks s.config.world n.orgID n.workflowExecutionID n.nodeID config.queue := by
    rw [only]
    exact List.mem_singleton_self t
  obtain ⟨ht', keyed⟩ := List.mem_filter.1 stored
  simp only [Bool.and_eq_true, decide_eq_true_eq] at keyed
  have ids := (executions_run False fresh (fun hs => hs.elim) reach).1.tasks
  rw [Table.eq_of_key ids ht ht' same.symm]
  exact keyed.1.1

/-- What a node becomes by a task that ended. -/
theorem mirrorTask_ended (row : WorkflowNodeExecution) {task : Task} (now : Time)
    (ended : task.status ≠ .pending ∧ task.status ≠ .processing) :
    (mirrorTask row task now).status.terminal = true ∧
      ((mirrorTask row task now).status = .succeeded ↔ task.status = .completed) := by
  unfold mirrorTask
  cases status : task.status with
  | pending => exact absurd status ended.1
  | processing => exact absurd status ended.2
  | completed | failed | deadLetter | cancelled => simp [WorkflowNodeExecutionStatus.terminal]

end Runs
/-- The task node is queued, and a worker has completed its task. -/
def completedRun : List (Action machine Request) :=
  [.spawn (.startExecution (sampleStart (.json (.obj [("go", .bool true)]))))] ++ steps 0 0 (idsFrom 100 63) ++
    [.spawn (.dispatch ⟨1⟩ "jobs" "w")] ++ steps 1 0 (idsFrom 300 12)

/-- AdvanceExecution of the sample execution, alone. -/
abbrev advancedAlone (s : State) : World :=
  (Prog.alone (M := machine) (fun _ => sampleEnv 0 ⟨900⟩) (advanceExecution sampleHost ⟨1⟩ ⟨2⟩ ⟨103⟩) s.config.world).2

end Windylane
