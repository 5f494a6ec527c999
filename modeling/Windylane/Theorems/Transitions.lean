import Windylane.Theorems.Records
import Windylane.Theorems.Reports

/-! Every change of an execution or a node has one winner. What a row has gone through can be read off its status, so a call
    that answers that it made a change finds a row that has not gone through it; and without faults every change is answered
    to the process that made it. With what each process reports, every change is reported once. -/

namespace Windylane

open Conc Script Prog

/-! ### What a row says about its past -/

/-- What an event is about. -/
inductive Subject where
  | execution (id : UUID)
  | node (id : UUID)
  | other

def Debt.subject : Debt → Subject
  | .listing _ id => .execution id
  | .event .workflowExecutionCreated id | .event .workflowExecutionStarted id | .event .workflowExecutionSucceeded id
  | .event .workflowExecutionFailed id | .event .workflowExecutionCancelled id => .execution id
  | .event .nodeExecutionStarted id | .event .nodeExecutionSucceeded id | .event .nodeExecutionFailed id
  | .event .nodeExecutionSkipped id => .node id
  | _ => .other

/-- How an execution ended. -/
def WorkflowExecution.ended (x : WorkflowExecution) : List Debt :=
  match x.status with
  | .succeeded => [.event .workflowExecutionSucceeded x.id]
  | .failed => [.event .workflowExecutionFailed x.id, .listing x.orgID x.id]
  | .cancelled => [.event .workflowExecutionCancelled x.id, .listing x.orgID x.id]
  | _ => []

/-- How a node ended; one that was cancelled is reported with its execution. -/
def WorkflowNodeExecution.ended (n : WorkflowNodeExecution) : List Debt :=
  match n.status with
  | .succeeded => [.event .nodeExecutionSucceeded n.id]
  | .failed => [.event .nodeExecutionFailed n.id]
  | .skipped => [.event .nodeExecutionSkipped n.id]
  | _ => []

/-- What an execution may have gone through. -/
def WorkflowExecution.shows (x : WorkflowExecution) : List Debt :=
  .event .workflowExecutionCreated x.id ::
    ((if x.status = .pending then [] else [.event .workflowExecutionStarted x.id]) ++ x.ended)

/-- What an execution has gone through. -/
def WorkflowExecution.proves (x : WorkflowExecution) : List Debt :=
  .event .workflowExecutionCreated x.id ::
    ((if x.status = .running then [.event .workflowExecutionStarted x.id] else []) ++ x.ended)

def WorkflowNodeExecution.shows (n : WorkflowNodeExecution) : List Debt :=
  (if n.status = .pending then [] else [.event .nodeExecutionStarted n.id]) ++ n.ended

def WorkflowNodeExecution.proves (n : WorkflowNodeExecution) : List Debt :=
  (if n.status = .pending ∨ n.status = .cancelled then [] else [.event .nodeExecutionStarted n.id]) ++ n.ended

theorem WorkflowExecution.subject_of_shows {x : WorkflowExecution} {d : Debt} (hd : d ∈ x.shows) :
    d.subject = .execution x.id := by
  cases status : x.status <;> simp [WorkflowExecution.shows, WorkflowExecution.ended, status] at hd
  all_goals
    rcases hd with rfl | rfl | rfl | rfl
    all_goals rfl

theorem WorkflowNodeExecution.subject_of_shows {n : WorkflowNodeExecution} {d : Debt} (hd : d ∈ n.shows) :
    d.subject = .node n.id := by
  cases status : n.status <;> simp [WorkflowNodeExecution.shows, WorkflowNodeExecution.ended, status] at hd
  all_goals
    rcases hd with rfl | rfl
    all_goals rfl

theorem WorkflowExecution.shows_of_proves {x : WorkflowExecution} {d : Debt} (hd : d ∈ x.proves) : d ∈ x.shows := by
  unfold WorkflowExecution.proves at hd
  unfold WorkflowExecution.shows
  rcases List.mem_cons.1 hd with rfl | hd
  · exact List.mem_cons_self
  refine List.mem_cons_of_mem _ (List.mem_append.2 ((List.mem_append.1 hd).imp_left fun started => ?_))
  split at started
  · rename_i running
    rwa [if_neg (by simp [running])]
  · cases started

theorem WorkflowNodeExecution.shows_of_proves {n : WorkflowNodeExecution} {d : Debt} (hd : d ∈ n.proves) : d ∈ n.shows := by
  unfold WorkflowNodeExecution.proves at hd
  unfold WorkflowNodeExecution.shows
  refine List.mem_append.2 ((List.mem_append.1 hd).imp_left fun started => ?_)
  split at started
  · cases started
  · rename_i begun
    rwa [if_neg fun pending => begun (Or.inl pending)]

/-! ### One change -/

/-- A row changes: what it showed it still shows, and it proves no more than before and what is left by the change. -/
structure Onward (left shows proves shows' proves' : List Debt) : Prop where
  lasts : shows ⊆ shows'
  only : proves' ⊆ proves ++ left

/-- What is left by the change was not shown before, and is proved now. -/
structure Turn (left : List Debt) (subject : Subject) (shows proves shows' proves' : List Debt) : Prop
    extends Onward left shows proves shows' proves' where
  once : left.Nodup
  owned : ∀ d ∈ left, d.subject = subject
  hidden : ∀ d ∈ left, d ∉ shows
  proved : left ⊆ proves'

abbrev ExecutionTurn (left : List Debt) (x x' : WorkflowExecution) : Prop :=
  Turn left (.execution x.id) x.shows x.proves x'.shows x'.proves

abbrev NodeTurn (left : List Debt) (n n' : WorkflowNodeExecution) : Prop :=
  Turn left (.node n.id) n.shows n.proves n'.shows n'.proves

section Turns
variable {x x' : WorkflowExecution} {n n' : WorkflowNodeExecution}

theorem started_turn (id : x'.id = x.id) (pending : x.status = .pending) (running : x'.status = .running) :
    ExecutionTurn [.event .workflowExecutionStarted x.id] x x' := by
  refine ⟨⟨?_, ?_⟩, ?_, ?_, ?_, ?_⟩ <;>
    simp [WorkflowExecution.shows, WorkflowExecution.proves, WorkflowExecution.ended, Debt.subject, id, pending, running]

theorem touched_turn (id : x'.id = x.id) (running : x.status = .running) (still : x'.status = .running) :
    ExecutionTurn [] x x' := by
  refine ⟨⟨?_, ?_⟩, ?_, ?_, ?_, ?_⟩ <;> simp [WorkflowExecution.shows, WorkflowExecution.proves, WorkflowExecution.ended, id, running, still]

theorem ended_turn (id : x'.id = x.id) (live : x.status.terminal = false) (ended : x'.status.terminal = true) :
    ExecutionTurn x'.ended x x' := by
  cases before : x.status <;> rw [before] at live <;> try cases live
  all_goals
    cases after : x'.status <;> rw [after] at ended <;> try cases ended
    all_goals
      refine ⟨⟨?_, ?_⟩, ?_, ?_, ?_, ?_⟩ <;>
        simp [WorkflowExecution.shows, WorkflowExecution.proves, WorkflowExecution.ended, Debt.subject, id, before, after]

theorem claimed_turn (id : n'.id = n.id) (pending : n.status = .pending) (running : n'.status = .running) :
    NodeTurn [.event .nodeExecutionStarted n.id] n n' := by
  refine ⟨⟨?_, ?_⟩, ?_, ?_, ?_, ?_⟩ <;>
    simp [WorkflowNodeExecution.shows, WorkflowNodeExecution.proves, WorkflowNodeExecution.ended, Debt.subject, id, pending,
      running]

theorem stored_turn (id : n'.id = n.id) (opened : n.status = .queued ∨ n.status = .running)
    (pending : n'.status ≠ .pending) (cancelled : n'.status ≠ .cancelled) : NodeTurn n'.ended n n' := by
  rcases opened with before | before
  all_goals
    cases after : n'.status with
    | pending => exact absurd after pending
    | cancelled => exact absurd after cancelled
    | _ =>
      refine ⟨⟨?_, ?_⟩, ?_, ?_, ?_, ?_⟩ <;>
        simp [WorkflowNodeExecution.shows, WorkflowNodeExecution.proves, WorkflowNodeExecution.ended, Debt.subject, id, before,
          after]

theorem closed_onward (id : n'.id = n.id) (live : n.status.terminal = false) (cancelled : n'.status = .cancelled)
    (left : List Debt) : Onward left n.shows n.proves n'.shows n'.proves := by
  cases before : n.status <;> rw [before] at live <;> try cases live
  all_goals
    constructor <;>
      simp [WorkflowNodeExecution.shows, WorkflowNodeExecution.proves, WorkflowNodeExecution.ended, id, before, cancelled]

end Turns

/-! ### The tables -/

def canvasMarks : Marks machine Debt where
  marks := debtsOf
  may := fun w d => (∃ x ∈ w.canvas.executions, d ∈ x.shows) ∨ ∃ n ∈ w.canvas.nodes, d ∈ n.shows
  must := fun w d => (∃ x ∈ w.canvas.executions, d ∈ x.proves) ∨ ∃ n ∈ w.canvas.nodes, d ∈ n.proves

section Tables
variable {w w' : World} {left : List Debt} {xs : List WorkflowExecution} {ns : List WorkflowNodeExecution}

theorem may_of_must {d : Debt} (must : canvasMarks.must w d) : canvasMarks.may w d := by
  rcases must with ⟨x, hx, proved⟩ | ⟨n, hn, proved⟩
  · exact Or.inl ⟨x, hx, WorkflowExecution.shows_of_proves proved⟩
  · exact Or.inr ⟨n, hn, WorkflowNodeExecution.shows_of_proves proved⟩

theorem leaves_of_rewrites (once : left.Nodup) (new : ∀ d ∈ left, ¬ canvasMarks.may w d ∧ canvasMarks.must w' d)
    (executions : Table.Rewrites (fun x x' => Onward left x.shows x.proves x'.shows x'.proves) xs w.canvas.executions
      w'.canvas.executions)
    (nodes : Table.Rewrites (fun n n' => Onward left n.shows n.proves n'.shows n'.proves) ns w.canvas.nodes w'.canvas.nodes)
    (insertedExecutions : ∀ x ∈ xs, x.proves ⊆ left) (insertedNodes : ∀ n ∈ ns, n.proves ⊆ left) :
    canvasMarks.Leaves left w w' where
  once := once
  new := fun d hd => ⟨(new d hd).1, may_of_must (new d hd).2, (new d hd).2⟩
  lasts := by
    rintro d (⟨x, hx, shown⟩ | ⟨n, hn, shown⟩)
    · obtain ⟨x', hx', rfl | onward⟩ := executions.kept hx
      · exact Or.inl ⟨x', hx', shown⟩
      · exact Or.inl ⟨x', hx', onward.lasts shown⟩
    · obtain ⟨n', hn', rfl | onward⟩ := nodes.kept hn
      · exact Or.inr ⟨n', hn', shown⟩
      · exact Or.inr ⟨n', hn', onward.lasts shown⟩
  only := by
    rintro d (⟨x', hx', proved⟩ | ⟨n', hn', proved⟩)
    · obtain added | ⟨x, hx, rfl | onward⟩ := executions.source hx'
      · exact Or.inr (insertedExecutions x' added proved)
      · exact Or.inl (Or.inl ⟨x', hx, proved⟩)
      · exact (List.mem_append.1 (onward.only proved)).imp_left fun before => Or.inl ⟨x, hx, before⟩
    · obtain added | ⟨n, hn, rfl | onward⟩ := nodes.source hn'
      · exact Or.inr (insertedNodes n' added proved)
      · exact Or.inl (Or.inr ⟨n', hn, proved⟩)
      · exact (List.mem_append.1 (onward.only proved)).imp_left fun before => Or.inr ⟨n, hn, before⟩

/-- Nothing is inserted. -/
theorem leaves_of_updates (once : left.Nodup) (new : ∀ d ∈ left, ¬ canvasMarks.may w d ∧ canvasMarks.must w' d)
    (executions : Table.Rewrites (fun x x' => Onward left x.shows x.proves x'.shows x'.proves) [] w.canvas.executions
      w'.canvas.executions)
    (nodes : Table.Rewrites (fun n n' => Onward left n.shows n.proves n'.shows n'.proves) [] w.canvas.nodes w'.canvas.nodes) :
    canvasMarks.Leaves left w w' :=
  leaves_of_rewrites once new executions nodes (by simp) (by simp)

theorem leaves_same (executions : w'.canvas.executions = w.canvas.executions) (nodes : w'.canvas.nodes = w.canvas.nodes) :
    canvasMarks.Leaves [] w w' :=
  leaves_of_updates List.nodup_nil (by simp) (Table.rewrites_of_eq executions) (Table.rewrites_of_eq nodes)

/-- One row of the executions changes, and nodes only in what they need not show. -/
theorem execution_leaves {p : WorkflowExecution → Bool} {f : WorkflowExecution → WorkflowExecution} {row : WorkflowExecution}
    (ids : (w.canvas.executions.map (·.id)).Nodup) (hrow : row ∈ w.canvas.executions) (chosen : p row = true)
    (unique : ∀ x, p x = true → x.id = row.id)
    (executions : w'.canvas.executions = Table.update p f w.canvas.executions)
    (nodes : Table.Rewrites (fun n n' => Onward left n.shows n.proves n'.shows n'.proves) [] w.canvas.nodes w'.canvas.nodes)
    (turn : ExecutionTurn left row (f row)) : canvasMarks.Leaves left w w' := by
  refine leaves_of_updates turn.once (fun d hd => ⟨?_, Or.inl ⟨f row, ?_, turn.proved hd⟩⟩) ?_ nodes
  · rintro (⟨x, hx, shown⟩ | ⟨n, -, shown⟩)
    · have subject := (WorkflowExecution.subject_of_shows shown).symm.trans (turn.owned d hd)
      injection subject with id
      exact turn.hidden d hd (Table.eq_of_key ids hx hrow id ▸ shown)
    · cases (WorkflowNodeExecution.subject_of_shows shown).symm.trans (turn.owned d hd)
  · rw [executions]
    exact Table.mem_update.2 ⟨row, hrow, if_pos chosen⟩
  · rw [executions]
    refine Table.rewrites_update fun x hx updated => ?_
    rw [Table.eq_of_key ids hx hrow (unique x updated)]
    exact turn.toOnward

/-- One row of the nodes changes. -/
theorem node_leaves {p : WorkflowNodeExecution → Bool} {f : WorkflowNodeExecution → WorkflowNodeExecution}
    {row : WorkflowNodeExecution} (ids : (w.canvas.nodes.map (·.id)).Nodup) (hrow : row ∈ w.canvas.nodes)
    (chosen : p row = true) (unique : ∀ n ∈ w.canvas.nodes, p n = true → n = row)
    (executions : w'.canvas.executions = w.canvas.executions) (nodes : w'.canvas.nodes = Table.update p f w.canvas.nodes)
    (turn : NodeTurn left row (f row)) : canvasMarks.Leaves left w w' := by
  refine leaves_of_updates turn.once (fun d hd => ⟨?_, Or.inr ⟨f row, ?_, turn.proved hd⟩⟩) (Table.rewrites_of_eq executions) ?_
  · rintro (⟨x, -, shown⟩ | ⟨n, hn, shown⟩)
    · cases (WorkflowExecution.subject_of_shows shown).symm.trans (turn.owned d hd)
    · have subject := (WorkflowNodeExecution.subject_of_shows shown).symm.trans (turn.owned d hd)
      injection subject with id
      exact turn.hidden d hd (Table.eq_of_key ids hn hrow id ▸ shown)
  · rw [nodes]
    exact Table.mem_update.2 ⟨row, hrow, if_pos chosen⟩
  · rw [nodes]
    refine Table.rewrites_update fun n hn updated => ?_
    rw [unique n hn updated]
    exact turn.toOnward

end Tables

/-! ### The statements -/

/-- What is written, and over what. -/
def Lawful : Op → Prop
  | .canvas (.updateWorkflowNodeExecution node expected) =>
    (expected = .queued ∨ expected = .running) ∧ node.status ≠ .pending ∧ node.status ≠ .cancelled
  | .canvas (.updateWorkflowExecution x expected) => x.status = .running ∧ (expected = [.pending] ∨ expected = [.running])
  | .canvas (.finalizeWorkflowExecution x expected closes) => expected = [.pending, .running] ∧
    (x.status = .succeeded ∧ closes = false ∨ x.status = .failed ∧ closes = true)
  | .canvas (.insertWorkflowExecution x nodes) => x.status = .pending ∧ ∀ n ∈ nodes, n.status = .pending
  | _ => True

theorem NodeWrite.lawful {h : Host} {past : List machine.Exchange} {node : WorkflowNodeExecution}
    {expected : WorkflowNodeExecutionStatus} (write : NodeWrite h past node expected) :
    (expected = .queued ∨ expected = .running) ∧ node.status ≠ .pending ∧ node.status ≠ .cancelled := by
  cases write with
  | skip _ _ => simp
  | execute _ _ _ executed => cases executed <;> simp
  | fail _ _ _ => simp
  | observe _ opened _ observed _ =>
    refine ⟨opened, ?_⟩
    cases observed.becomes opened with
    | opened _ _ live => rcases live with rfl | rfl <;> simp
    | succeeded _ _ => simp
    | failed _ _ _ => simp

theorem Rightful.lawful {h : Host} {past : List machine.Exchange} {o : Op} (rightful : Rightful h past o) : Lawful o := by
  unfold Lawful
  split
  · exact NodeWrite.lawful rightful
  · obtain ⟨y, now, ⟨-, -, rfl, rfl⟩ | ⟨-, rfl, rfl⟩⟩ := rightful
    · exact ⟨rfl, Or.inl rfl⟩
    · exact ⟨rfl, Or.inr rfl⟩
  · obtain ⟨rfl, y, now, -, ⟨output, rfl, rfl⟩ | ⟨code, message, rfl, rfl, -⟩⟩ := rightful
    · exact ⟨rfl, Or.inl ⟨rfl, rfl⟩⟩
    · exact ⟨rfl, Or.inr ⟨rfl, rfl⟩⟩
  · exact ⟨NewExecution.status rightful, fun n hn => (NewExecution.nodes rightful n hn).1⟩
  · trivial

section Statements
variable {w w' : World} {x : WorkflowExecution}

theorem insert_leaves {nodes : List WorkflowNodeExecution} (lawful : x.status = .pending ∧ ∀ n ∈ nodes, n.status = .pending)
    (stored : w'.canvas = (Canvas.insertWorkflowExecution x nodes w.canvas).2) :
    canvasMarks.Leaves (debtsOf ⟨.canvas (.insertWorkflowExecution x nodes),
      (Canvas.insertWorkflowExecution x nodes w.canvas).1⟩) w w' := by
  rcases insertWorkflowExecution_cases x nodes w.canvas with ⟨same, failed⟩ | ⟨new, inserted⟩
  · have quiet : debtsOf ⟨.canvas (.insertWorkflowExecution x nodes), (Canvas.insertWorkflowExecution x nodes w.canvas).1⟩ = [] := by
      revert failed
      generalize (Canvas.insertWorkflowExecution x nodes w.canvas).1 = answer
      intro failed
      cases answer with
      | error e => rfl
      | ok inserted =>
        cases inserted with
        | true => exact absurd rfl failed
        | false => rfl
    rw [quiet]
    exact leaves_same (by rw [stored, same]) (by rw [stored, same])
  · rw [inserted] at stored ⊢
    have executions : w'.canvas.executions = w.canvas.executions ++ [x] := by rw [stored]
    have added : w'.canvas.nodes = w.canvas.nodes ++ nodes := by rw [stored]
    refine leaves_of_rewrites (List.nodup_singleton _) ?_ (executions ▸ Table.rewrites_insert [x])
      (added ▸ Table.rewrites_insert nodes) ?_ ?_
    · intro d hd
      cases List.mem_singleton.1 hd
      refine ⟨?_, Or.inl ⟨x, by simp [executions], by simp [WorkflowExecution.proves]⟩⟩
      rintro (⟨y, hy, shown⟩ | ⟨n, -, shown⟩)
      · have subject := WorkflowExecution.subject_of_shows shown
        injection subject with id
        exact (new y hy).2 id.symm
      · cases WorkflowNodeExecution.subject_of_shows shown
    · simp [WorkflowExecution.proves, WorkflowExecution.ended, lawful.1, debtsOf]
    · intro n hn
      simp [WorkflowNodeExecution.proves, WorkflowNodeExecution.ended, lawful.2 n hn]

/-- The rows of an execution that a statement chooses by organisation, id and status. -/
theorem execution_chosen {orgID id : UUID} {expected : List WorkflowExecutionStatus} {y : WorkflowExecution} :
    (y.orgID = orgID && y.id = id && y.status ∈ expected) = true ↔ y.orgID = orgID ∧ y.id = id ∧ y.status ∈ expected := by
  simp [and_assoc]

theorem update_leaves {expected : List WorkflowExecutionStatus} (ids : (w.canvas.executions.map (·.id)).Nodup)
    (lawful : x.status = .running ∧ (expected = [.pending] ∨ expected = [.running]))
    (stored : w'.canvas = (Canvas.updateWorkflowExecution x expected w.canvas).2) :
    canvasMarks.Leaves (debtsOf ⟨.canvas (.updateWorkflowExecution x expected),
      .ok (Canvas.updateWorkflowExecution x expected w.canvas).1⟩) w w' := by
  have nodes : w'.canvas.nodes = w.canvas.nodes := by rw [stored]; rfl
  by_cases found : ∃ row ∈ w.canvas.executions, row.orgID = x.orgID ∧ row.id = x.id ∧ row.status ∈ expected
  · obtain ⟨row, hrow, chosen⟩ := found
    have won : (Canvas.updateWorkflowExecution x expected w.canvas).1 = true := by
      refine decide_eq_true (Table.countP_unique ids hrow (execution_chosen.2 chosen) fun y _ also => ?_)
      exact (execution_chosen.1 also).2.1.trans chosen.2.1.symm
    rw [won]
    refine execution_leaves ids hrow (execution_chosen.2 chosen)
      (fun y also => (execution_chosen.1 also).2.1.trans chosen.2.1.symm) (by rw [stored]; rfl) (Table.rewrites_of_eq nodes) ?_
    rcases lawful with ⟨running, rfl | rfl⟩
    · simp only [debtsOf, if_pos, ← chosen.2.1]
      exact started_turn rfl (List.mem_singleton.1 chosen.2.2) running
    · simp only [debtsOf]
      exact touched_turn rfl (List.mem_singleton.1 chosen.2.2) running
  · have unchosen : ∀ y ∈ w.canvas.executions, (y.orgID = x.orgID && y.id = x.id && y.status ∈ expected) = false := by
      intro y hy
      rw [Bool.eq_false_iff]
      exact fun also => found ⟨y, hy, execution_chosen.1 also⟩
    have lost : (Canvas.updateWorkflowExecution x expected w.canvas).1 = false := by
      refine decide_eq_false fun one => ?_
      rw [List.countP_eq_zero.2 fun y hy => by simp [unchosen y hy]] at one
      cases one
    rw [lost]
    exact leaves_same (by rw [stored]; exact Table.update_of_not unchosen) nodes

theorem closed_rewrites {left : List Debt} {orgID id : UUID} {code message : String} {now : Time} :
    Table.Rewrites (fun n n' => Onward left n.shows n.proves n'.shows n'.proves) [] w.canvas.nodes
      (Table.update (Canvas.openNode orgID id) (Canvas.closed code message now) w.canvas.nodes) :=
  Table.rewrites_update fun n _ opened => by
    have same : (Canvas.closed code message now n).id = n.id := rfl
    exact closed_onward same (openNode_live opened) rfl left

theorem finalize_leaves {expected : List WorkflowExecutionStatus} {closes : Bool}
    (ids : (w.canvas.executions.map (·.id)).Nodup)
    (lawful : expected = [.pending, .running] ∧ (x.status = .succeeded ∧ closes = false ∨ x.status = .failed ∧ closes = true))
    (stored : w'.canvas = (Canvas.finalizeWorkflowExecution x expected closes w.canvas).2) :
    canvasMarks.Leaves (debtsOf ⟨.canvas (.finalizeWorkflowExecution x expected closes),
      .ok (Canvas.finalizeWorkflowExecution x expected closes w.canvas).1⟩) w w' := by
  obtain ⟨rfl, ends⟩ := lawful
  unfold Canvas.finalizeWorkflowExecution at stored ⊢
  simp only at stored ⊢
  split at stored <;> rename_i found
  · rw [if_pos found]
    exact leaves_same (by rw [stored]) (by rw [stored])
  rw [if_neg found]
  obtain ⟨row, hrow, chosen⟩ := List.any_eq_true.1 (by simpa only [Bool.not_eq_true', Bool.not_eq_false] using found)
  obtain ⟨org, id, status⟩ := execution_chosen.1 chosen
  have live : row.status.terminal = false := by
    rcases List.mem_cons.1 status with pending | running
    · rw [pending]
      rfl
    · rw [List.mem_singleton.1 running]
      rfl
  have unique : ∀ y : WorkflowExecution, (y.orgID = x.orgID && y.id = x.id && y.status ∈ [.pending, .running]) = true →
      y.id = row.id := fun y also => (execution_chosen.1 also).2.1.trans id.symm
  rcases ends with ⟨succeeded, rfl⟩ | ⟨failed, rfl⟩
  · have dues : debtsOf ⟨.canvas (.finalizeWorkflowExecution x [.pending, .running] false), .ok true⟩ =
        (Canvas.revise x row).ended := by
      simp [debtsOf, WorkflowExecution.ended, WorkflowExecutionStatus.event, Canvas.revise, succeeded, id]
    rw [dues]
    refine execution_leaves ids hrow chosen unique (by rw [stored]) (Table.rewrites_of_eq (by rw [stored]; rfl))
      (ended_turn rfl live ?_)
    rw [Canvas.revise, succeeded]
    rfl
  · have dues : debtsOf ⟨.canvas (.finalizeWorkflowExecution x [.pending, .running] true), .ok true⟩ =
        (Canvas.revise x row).ended := by
      simp [debtsOf, WorkflowExecution.ended, WorkflowExecutionStatus.event, Canvas.revise, failed, id, org]
    rw [dues]
    refine execution_leaves ids hrow chosen unique (by rw [stored]) (by rw [stored]; exact closed_rewrites)
      (ended_turn rfl live ?_)
    rw [Canvas.revise, failed]
    rfl

theorem cancel_leaves {orgID workflowID executionID : UUID} {now : Time} (ids : (w.canvas.executions.map (·.id)).Nodup)
    (stored : w'.canvas = (Canvas.cancelWorkflowExecution orgID workflowID executionID now w.canvas).2) :
    canvasMarks.Leaves (debtsOf ⟨.canvas (.cancelWorkflowExecution orgID workflowID executionID now),
      (Canvas.cancelWorkflowExecution orgID workflowID executionID now w.canvas).1⟩) w w' := by
  unfold Canvas.cancelWorkflowExecution Canvas.getWorkflowExecution at stored ⊢
  cases found : w.canvas.executions.find? fun y => y.orgID = orgID && y.workflowID = workflowID && y.id = executionID with
  | none =>
    rw [found] at stored
    exact leaves_same (by rw [stored]) (by rw [stored])
  | some row =>
    rw [found] at stored
    simp only at stored ⊢
    have hrow := List.mem_of_find?_eq_some found
    have named := List.find?_some found
    simp only [Bool.and_eq_true, decide_eq_true_eq] at named
    split at stored <;> rename_i ended
    · rw [if_pos ended]
      exact leaves_same (by rw [stored]) (by rw [stored])
    rw [if_neg ended]
    have dues : debtsOf ⟨.canvas (.cancelWorkflowExecution orgID workflowID executionID now), .ok (Canvas.cancelled now row)⟩ =
        (Canvas.cancelled now row).ended := by
      simp [debtsOf, WorkflowExecution.ended, Canvas.cancelled, named]
    have unique : ∀ y : WorkflowExecution, (y.orgID = orgID && y.id = executionID) = true → y.id = row.id := by
      intro y also
      simp only [Bool.and_eq_true, decide_eq_true_eq] at also
      exact also.2.trans named.2.symm
    rw [dues]
    exact execution_leaves ids hrow (by simp [named]) unique (by rw [stored]) (by rw [stored]; exact closed_rewrites)
      (ended_turn rfl (by simpa using ended) rfl)

theorem claim_leaves {orgID executionID : UUID} {nodeID : String} {now : Time} (ids : (w.canvas.nodes.map (·.id)).Nodup)
    (unique : ∀ n ∈ w.canvas.nodes, ∀ n' ∈ w.canvas.nodes, n'.workflowExecutionID = n.workflowExecutionID →
      n'.nodeID = n.nodeID → n' = n)
    (stored : w'.canvas = (Canvas.claimWorkflowNode orgID executionID nodeID now w.canvas).2) :
    canvasMarks.Leaves (debtsOf ⟨.canvas (.claimWorkflowNode orgID executionID nodeID now),
      .ok (Canvas.claimWorkflowNode orgID executionID nodeID now w.canvas).1⟩) w w' := by
  unfold Canvas.claimWorkflowNode at stored ⊢
  simp only at stored ⊢
  cases found : w.canvas.nodes.find? fun n => n.orgID = orgID && n.workflowExecutionID = executionID && n.nodeID = nodeID &&
      n.status = .pending with
  | none =>
    rw [found] at stored
    exact leaves_same (by rw [stored]) (by rw [stored])
  | some row =>
    rw [found] at stored
    have hrow := List.mem_of_find?_eq_some found
    have chosen := List.find?_some found
    have named := chosen
    simp only [Bool.and_eq_true, decide_eq_true_eq] at named
    have only : ∀ n ∈ w.canvas.nodes, (n.orgID = orgID && n.workflowExecutionID = executionID && n.nodeID = nodeID &&
        n.status = .pending) = true → n = row := by
      intro n hn also
      simp only [Bool.and_eq_true, decide_eq_true_eq] at also
      exact unique row hrow n hn (also.1.1.2.trans named.1.1.2.symm) (also.1.2.trans named.1.2.symm)
    have turn : NodeTurn [.event .nodeExecutionStarted row.id] row (Canvas.claimed now row) := claimed_turn rfl named.2 rfl
    exact node_leaves ids hrow chosen only (by rw [stored]) (by rw [stored]) turn

theorem store_leaves {node : WorkflowNodeExecution} {expected : WorkflowNodeExecutionStatus}
    (ids : (w.canvas.nodes.map (·.id)).Nodup)
    (lawful : (expected = .queued ∨ expected = .running) ∧ node.status ≠ .pending ∧ node.status ≠ .cancelled)
    (stored : w'.canvas = (Canvas.updateWorkflowNodeExecution node expected w.canvas).2) :
    canvasMarks.Leaves (debtsOf ⟨.canvas (.updateWorkflowNodeExecution node expected),
      .ok (Canvas.updateWorkflowNodeExecution node expected w.canvas).1⟩) w w' := by
  have executions : w'.canvas.executions = w.canvas.executions := by rw [stored]; rfl
  have iff : ∀ n : WorkflowNodeExecution, (n.orgID = node.orgID && n.workflowExecutionID = node.workflowExecutionID &&
      n.id = node.id && n.status = expected) = true ↔ n.orgID = node.orgID ∧
        n.workflowExecutionID = node.workflowExecutionID ∧ n.id = node.id ∧ n.status = expected := by simp [and_assoc]
  by_cases found : ∃ row ∈ w.canvas.nodes, row.orgID = node.orgID ∧ row.workflowExecutionID = node.workflowExecutionID ∧
      row.id = node.id ∧ row.status = expected
  · obtain ⟨row, hrow, chosen⟩ := found
    have same : ∀ n ∈ w.canvas.nodes, (n.orgID = node.orgID && n.workflowExecutionID = node.workflowExecutionID &&
        n.id = node.id && n.status = expected) = true → n.id = row.id :=
      fun n _ also => ((iff n).1 also).2.2.1.trans chosen.2.2.1.symm
    have won : (Canvas.updateWorkflowNodeExecution node expected w.canvas).1 = true :=
      decide_eq_true (Table.countP_unique ids hrow ((iff row).2 chosen) same)
    have dues : debtsOf ⟨.canvas (.updateWorkflowNodeExecution node expected), .ok true⟩ =
        (Canvas.overwrite node row).ended := by
      obtain ⟨-, -, cancelled⟩ := lawful
      cases status : node.status with
      | cancelled => exact absurd status cancelled
      | _ =>
        simp [debtsOf, WorkflowNodeExecution.ended, WorkflowNodeExecutionStatus.event, Canvas.overwrite, status, chosen.2.2.1]
    rw [won, dues]
    refine node_leaves ids hrow ((iff row).2 chosen) (fun n hn also => Table.eq_of_key ids hn hrow (same n hn also)) executions
      (by rw [stored]; rfl) (stored_turn rfl ?_ lawful.2.1 lawful.2.2)
    rw [chosen.2.2.2]
    exact lawful.1
  · have unchosen : ∀ n ∈ w.canvas.nodes, (n.orgID = node.orgID && n.workflowExecutionID = node.workflowExecutionID &&
        n.id = node.id && n.status = expected) = false := by
      intro n hn
      rw [Bool.eq_false_iff]
      exact fun also => found ⟨n, hn, (iff n).1 also⟩
    have lost : (Canvas.updateWorkflowNodeExecution node expected w.canvas).1 = false := by
      refine decide_eq_false fun one => ?_
      rw [List.countP_eq_zero.2 fun n hn => by simp [unchosen n hn]] at one
      cases one
    rw [lost]
    exact leaves_same executions (by rw [stored]; exact Table.update_of_not unchosen)

end Statements

/-! ### Runs -/

/-- The primary key of the nodes. -/
theorem nodeIDs_run (o : CanvasOp) {c : Canvas.Store} (ids : (c.nodes.map (·.id)).Nodup) : ((o.run c).2.nodes.map (·.id)).Nodup := by
  have kept : ∀ {n n' : WorkflowNodeExecution}, NodeChange o n n' → n'.id = n.id := by
    intro n n' change
    cases change <;> rfl
  obtain ⟨xs, ns, writes⟩ := o.writes c
  cases writes.inserts with
  | none =>
    obtain ⟨f, rows, changes⟩ := writes.nodes
    have same : (c.nodes.map f).map (·.id) = c.nodes.map (·.id) := by
      rw [List.map_map]
      refine List.map_congr_left fun n hn => ?_
      rcases changes n hn with unchanged | changed
      · exact congrArg (·.id) unchanged
      · exact kept changed
    rw [rows, List.append_nil, same]
    exact ids
  | execution x _ _ =>
    simp only [CanvasOp.run, Canvas.insertWorkflowExecution]
    split
    · exact ids
    split
    · exact ids
    split
    · exact ids
    split
    · exact ids
    · rename_i rows
      simp only [Bool.not_eq_true', Bool.not_eq_false, Bool.and_eq_true, decide_eq_true_eq] at rows
      exact rows.1.1

theorem Op.leaves {env : Env} (calm : env.fault = none) {o : Op} {w : World} {strict : Prop}
    {done : WorkflowNodeExecution → Prop} (inv : CanvasInv strict done w.canvas) (nodeIDs : (w.canvas.nodes.map (·.id)).Nodup)
    (lawful : Lawful o) : canvasMarks.Leaves (debtsOf ⟨o, (o.exec env w).1⟩) w (o.exec env w).2 := by
  rw [Op.exec_calm calm]
  cases o with
  | canvas c =>
    cases c with
    | insertWorkflowExecution x nodes => exact insert_leaves lawful rfl
    | updateWorkflowExecution x expected => exact update_leaves inv.ids lawful rfl
    | finalizeWorkflowExecution x expected closes => exact finalize_leaves inv.ids lawful rfl
    | cancelWorkflowExecution orgID workflowID executionID now => exact cancel_leaves inv.ids rfl
    | claimWorkflowNode orgID executionID nodeID now =>
      exact claim_leaves nodeIDs (fun n hn n' hn' execution nodeID => inv.node_unique hn hn' execution (Or.inl nodeID)) rfl
    | updateWorkflowNodeExecution node expected => exact store_leaves nodeIDs lawful rfl
    | _ => exact leaves_same (And.left (CanvasOp.quiet_rows rfl w.canvas)) (And.right (CanvasOp.quiet_rows rfl w.canvas))
  | _ => exact leaves_same rfl rfl

section Runs
variable {h : Host} {w : World} {s : State}

/-- No change was made twice, and the tables show which were made. -/
theorem changes_run (fresh : w.Fresh) (reach : Reachable h (fun _ => Calm) w s) :
    canvasMarks.Kept s.config ∧ (s.config.world.canvas.nodes.map (·.id)).Nodup := by
  refine reach.invariant (fun s : State => canvasMarks.Kept s.config ∧ (s.config.world.canvas.nodes.map (·.id)).Nodup) ?_ ?_
  · refine ⟨⟨List.nodup_nil, (fun _ hm => by cases hm), ?_⟩, by simp [System.init, fresh.nodes]⟩
    rintro d (⟨x, hx, -⟩ | ⟨n, hn, -⟩)
    · simp [System.init, fresh.executions] at hx
    · simp [System.init, fresh.nodes] at hn
  · intro s t a prior ih allowed taken
    rcases System.next_cases taken with ⟨_, -, rfl⟩ | ⟨pid, env, request, o, k, rfl, hp, rfl⟩ | ⟨_, _, -, -, rfl⟩
    · exact ih
    · have lawful := (calling_rightful fresh prior ⟨request, k, hp⟩).lawful
      refine ⟨ih.1.step (Op.leaves allowed (canvas_inv fresh prior) ih.2 lawful), ?_⟩
      rcases Op.exec_canvas env o s.config.world with same | ⟨c, rfl, runs⟩
      · exact (congrArg (fun canvas : Canvas.Store => (canvas.nodes.map (·.id)).Nodup) same).mpr ih.2
      · exact (congrArg (fun canvas : Canvas.Store => (canvas.nodes.map (·.id)).Nodup) runs).mpr (nodeIDs_run c ih.2)
    · exact ih

end Runs

end Windylane
