import Windylane.Theorems.Canvas

/-! What the statements write to executions and nodes, row by row: a row stays as it is, or one of the few statements
    that write it changes it. -/

namespace Windylane

open Canvas

/-- What a statement writes to an execution. -/
inductive ExecutionChange (s : Store) : CanvasOp → WorkflowExecution → WorkflowExecution → Prop
  | update {x row : WorkflowExecution} {expected : List WorkflowExecutionStatus} (orgID : row.orgID = x.orgID)
      (id : row.id = x.id) (status : row.status ∈ expected) :
      ExecutionChange s (.updateWorkflowExecution x expected) row (revise x row)
  | finalize {x row : WorkflowExecution} {expected : List WorkflowExecutionStatus} {closes : Bool}
      (orgID : row.orgID = x.orgID) (id : row.id = x.id) (status : row.status ∈ expected) :
      ExecutionChange s (.finalizeWorkflowExecution x expected closes) row (revise x row)
  | cancel {row : WorkflowExecution} {orgID workflowID executionID : UUID} {now : Time} (org : row.orgID = orgID)
      (id : row.id = executionID) (live : ∃ x ∈ s.executions, x.id = row.id ∧ x.status.terminal = false) :
      ExecutionChange s (.cancelWorkflowExecution orgID workflowID executionID now) row (cancelled now row)

/-- What a statement writes to a node. -/
inductive NodeChange : CanvasOp → WorkflowNodeExecution → WorkflowNodeExecution → Prop
  | claim {row : WorkflowNodeExecution} {orgID executionID : UUID} {nodeID : String} {now : Time} (org : row.orgID = orgID)
      (execution : row.workflowExecutionID = executionID) (node : row.nodeID = nodeID) (pending : row.status = .pending) :
      NodeChange (.claimWorkflowNode orgID executionID nodeID now) row (claimed now row)
  | store {row node : WorkflowNodeExecution} {expected : WorkflowNodeExecutionStatus} (org : row.orgID = node.orgID)
      (execution : row.workflowExecutionID = node.workflowExecutionID) (id : row.id = node.id)
      (status : row.status = expected) : NodeChange (.updateWorkflowNodeExecution node expected) row (overwrite node row)
  | close {row : WorkflowNodeExecution} {x : WorkflowExecution} {expected : List WorkflowExecutionStatus}
      (opened : openNode x.orgID x.id row = true) : NodeChange (.finalizeWorkflowExecution x expected true) row
        (closed x.errorCode x.errorMessage x.updatedAt row)
  | cancel {row : WorkflowNodeExecution} {orgID workflowID executionID : UUID} {now : Time}
      (opened : openNode orgID executionID row = true) :
      NodeChange (.cancelWorkflowExecution orgID workflowID executionID now) row
        (closed "workflow_execution_cancelled" "workflow execution was cancelled" now row)

/-- What is inserted. -/
inductive Inserts (s : Store) : CanvasOp → List WorkflowExecution → List WorkflowNodeExecution → Prop
  | none (o : CanvasOp) : Inserts s o [] []
  | execution (x : WorkflowExecution) (nodes : List WorkflowNodeExecution) (new : ∀ y ∈ s.executions, y.id ≠ x.id) :
      Inserts s (.insertWorkflowExecution x nodes) [x] nodes

/-- A statement writes the executions and the nodes as these say. -/
structure Writes (o : CanvasOp) (s s' : Store) (executions : List WorkflowExecution) (nodes : List WorkflowNodeExecution) :
    Prop where
  inserts : Inserts s o executions nodes
  executions : Table.Rewrites (ExecutionChange s o) executions s.executions s'.executions
  nodes : Table.Rewrites (NodeChange o) nodes s.nodes s'.nodes

theorem Writes.unchanged {o : CanvasOp} {s s' : Store} (executions : s'.executions = s.executions)
    (nodes : s'.nodes = s.nodes) : Writes o s s' [] [] :=
  ⟨.none o, executions ▸ Table.rewrites_refl, nodes ▸ Table.rewrites_refl⟩

theorem insertWorkflowExecution_writes (x : WorkflowExecution) (nodes : List WorkflowNodeExecution) (s : Store) :
    ∃ added rows, Writes (.insertWorkflowExecution x nodes) s (insertWorkflowExecution x nodes s).2 added rows := by
  unfold insertWorkflowExecution
  split
  · exact ⟨_, _, .unchanged rfl rfl⟩
  split
  · exact ⟨_, _, .unchanged rfl rfl⟩
  split
  · exact ⟨_, _, .unchanged rfl rfl⟩
  split
  · exact ⟨_, _, .unchanged rfl rfl⟩
  · rename_i new _ _ _
    have new : ∀ y ∈ s.executions, y.id ≠ x.id := by simpa using new
    exact ⟨_, _, .execution x nodes new, Table.rewrites_insert _, Table.rewrites_insert _⟩

theorem claimWorkflowNode_writes (orgID executionID : UUID) (nodeID : String) (now : Time) (s : Store) :
    Writes (.claimWorkflowNode orgID executionID nodeID now) s (claimWorkflowNode orgID executionID nodeID now s).2 [] [] := by
  unfold claimWorkflowNode
  simp only
  split
  · refine ⟨.none _, Table.rewrites_refl, Table.rewrites_update fun row _ chosen => ?_⟩
    simp only [Bool.and_eq_true, decide_eq_true_eq] at chosen
    exact .claim chosen.1.1.1 chosen.1.1.2 chosen.1.2 chosen.2
  · exact .unchanged rfl rfl

theorem updateWorkflowNodeExecution_writes (node : WorkflowNodeExecution) (expected : WorkflowNodeExecutionStatus) (s : Store) :
    Writes (.updateWorkflowNodeExecution node expected) s (updateWorkflowNodeExecution node expected s).2 [] [] := by
  refine ⟨.none _, Table.rewrites_refl, Table.rewrites_update fun row _ chosen => ?_⟩
  simp only [Bool.and_eq_true, decide_eq_true_eq] at chosen
  exact .store chosen.1.1.1 chosen.1.1.2 chosen.1.2 chosen.2

theorem updateWorkflowExecution_writes (x : WorkflowExecution) (expected : List WorkflowExecutionStatus) (s : Store) :
    Writes (.updateWorkflowExecution x expected) s (updateWorkflowExecution x expected s).2 [] [] := by
  refine ⟨.none _, Table.rewrites_update fun row _ chosen => ?_, Table.rewrites_refl⟩
  simp only [Bool.and_eq_true, decide_eq_true_eq] at chosen
  exact .update chosen.1.1 chosen.1.2 chosen.2

theorem finalizeWorkflowExecution_writes (x : WorkflowExecution) (expected : List WorkflowExecutionStatus) (closes : Bool)
    (s : Store) : Writes (.finalizeWorkflowExecution x expected closes) s
      (finalizeWorkflowExecution x expected closes s).2 [] [] := by
  unfold finalizeWorkflowExecution
  simp only
  split
  · exact .unchanged rfl rfl
  refine ⟨.none _, Table.rewrites_update fun row _ chosen => ?_, ?_⟩
  · simp only [Bool.and_eq_true, decide_eq_true_eq] at chosen
    exact .finalize chosen.1.1 chosen.1.2 chosen.2
  · cases closes with
    | false => exact Table.rewrites_refl
    | true => exact Table.rewrites_update fun row _ opened => .close opened

theorem cancelWorkflowExecution_writes (orgID workflowID executionID : UUID) (now : Time) (s : Store) :
    Writes (.cancelWorkflowExecution orgID workflowID executionID now) s
      (cancelWorkflowExecution orgID workflowID executionID now s).2 [] [] := by
  unfold cancelWorkflowExecution
  split
  · exact .unchanged rfl rfl
  split
  · exact .unchanged rfl rfl
  rename_i x found live
  refine ⟨.none _, Table.rewrites_update fun row _ chosen => ?_, Table.rewrites_update fun row _ opened => .cancel opened⟩
  simp only [Bool.and_eq_true, decide_eq_true_eq] at chosen
  refine .cancel chosen.1 chosen.2 ?_
  unfold getWorkflowExecution at found
  split at found
  · rename_i stored
    cases found
    have named := List.find?_some stored
    simp only [Bool.and_eq_true, decide_eq_true_eq] at named
    exact ⟨x, List.mem_of_find?_eq_some stored, named.2.trans chosen.2.symm, by simpa using live⟩
  · cases found

/-- A statement that writes no execution. -/
theorem CanvasOp.quiet_rows {o : CanvasOp} (quiet : o.runs = false) (s : Store) :
    (o.run s).2.executions = s.executions ∧ (o.run s).2.nodes = s.nodes := by
  cases o with
  | insertWorkflowExecution | claimWorkflowNode | updateWorkflowNodeExecution | updateWorkflowExecution
  | finalizeWorkflowExecution | cancelWorkflowExecution => cases quiet
  | createWorkflow workflow =>
    simp only [CanvasOp.run, Canvas.createWorkflow]
    split <;> exact ⟨rfl, rfl⟩
  | updateWorkflow workflow =>
    simp only [CanvasOp.run, Canvas.updateWorkflow]
    split <;> [exact ⟨rfl, rfl⟩; split <;> exact ⟨rfl, rfl⟩]
  | softDeleteWorkflow orgID id now =>
    simp only [CanvasOp.run, Canvas.softDeleteWorkflow]
    split <;> exact ⟨rfl, rfl⟩
  | publishWorkflow expected publishedAt versionID =>
    simp only [CanvasOp.run, Canvas.publishWorkflow]
    split
    · exact ⟨rfl, rfl⟩
    split
    · exact ⟨rfl, rfl⟩
    split
    · exact ⟨rfl, rfl⟩
    split <;> exact ⟨rfl, rfl⟩
  | createWorkflowVersion version =>
    simp only [CanvasOp.run, Canvas.createWorkflowVersion]
    split
    · exact ⟨rfl, rfl⟩
    split
    · exact ⟨rfl, rfl⟩
    split <;> exact ⟨rfl, rfl⟩
  | _ => exact ⟨rfl, rfl⟩

theorem CanvasOp.writes (o : CanvasOp) (s : Store) : ∃ executions nodes, Writes o s (o.run s).2 executions nodes := by
  cases quiet : o.runs with
  | false =>
    obtain ⟨executions, nodes⟩ := CanvasOp.quiet_rows quiet s
    exact ⟨_, _, .unchanged executions nodes⟩
  | true =>
    cases o with
    | insertWorkflowExecution x nodes => exact insertWorkflowExecution_writes x nodes s
    | claimWorkflowNode orgID executionID nodeID now => exact ⟨_, _, claimWorkflowNode_writes orgID executionID nodeID now s⟩
    | updateWorkflowNodeExecution node expected => exact ⟨_, _, updateWorkflowNodeExecution_writes node expected s⟩
    | updateWorkflowExecution x expected => exact ⟨_, _, updateWorkflowExecution_writes x expected s⟩
    | finalizeWorkflowExecution x expected closes => exact ⟨_, _, finalizeWorkflowExecution_writes x expected closes s⟩
    | cancelWorkflowExecution orgID workflowID executionID now =>
      exact ⟨_, _, cancelWorkflowExecution_writes orgID workflowID executionID now s⟩
    | _ => cases quiet

/-- A call leaves the tables of executions, or it is a statement on them and happens. -/
theorem Op.exec_canvas (env : Env) (o : Op) (w : World) : (o.exec env w).2.canvas = w.canvas ∨
    ∃ c, o = .canvas c ∧ (o.exec env w).2.canvas = (c.run w.canvas).2 := by
  cases o with
  | canvas c =>
    rcases Op.exec_world env (.canvas c) w with stays | runs
    · exact Or.inl (by rw [stays])
    · exact Or.inr ⟨c, rfl, by rw [runs]; rfl⟩
  | _ => exact Or.inl (Op.exec_frame (·.canvas) rfl)

end Windylane
