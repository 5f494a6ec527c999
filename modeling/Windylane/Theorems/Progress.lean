import Windylane.Theorems.Alone
import Windylane.Theorems.Configs

/-! An execution of a workflow that was accepted does not get stuck: while nothing outside is waited for, some node is ready
    or the execution ends. -/

namespace Windylane

open Conc Script Prog

/-! ### A node that is ready -/

section Ready
variable {d : WorkflowDefinition} {nodes : List WorkflowNodeExecution}

/-- The order of the rows does not matter to readiness. -/
theorem workflowNodeReadiness_perm {rows : List WorkflowNodeExecution} (perm : rows.Perm nodes)
    (nodup : (nodes.map (·.nodeID)).Nodup) (m : WorkflowNode) :
    workflowNodeReadiness d rows m = workflowNodeReadiness d nodes m := by
  have loop : ∀ edges count, readinessLoop d rows edges count = readinessLoop d nodes edges count := by
    intro edges
    induction edges with
    | nil => exact fun _ => rfl
    | cons edge rest ih =>
      intro count
      unfold readinessLoop
      simp only [stateOf_perm perm nodup, ih]
  unfold workflowNodeReadiness
  rw [loop]

/-- A node whose sources all ended well is not kept waiting. -/
theorem readinessLoop_resolved {edges : List WorkflowEdge} {count : Nat} (resolved : ∀ e ∈ edges, Resolved nodes e.source) :
    readinessLoop d nodes edges count ≠ .ok .waiting := by
  induction edges generalizing count with
  | nil =>
    unfold readinessLoop
    split <;> simp
  | cons edge rest ih =>
    have rest : ∀ count, readinessLoop d nodes rest count ≠ .ok .waiting := fun count =>
      ih fun e he => resolved e (List.mem_cons_of_mem _ he)
    obtain ⟨n, found, well⟩ := resolved edge List.mem_cons_self
    have ended : n.status.terminal = true ∧ ¬ (n.status = .failed ∨ n.status = .cancelled) := by
      rcases well with succeeded | skipped
      · simp [succeeded, WorkflowNodeExecutionStatus.terminal]
      · simp [skipped, WorkflowNodeExecutionStatus.terminal]
    unfold readinessLoop
    simp only [found]
    rw [if_neg (by simp [ended.1]), if_neg ended.2]
    split
    · exact rest count
    split
    · split
      · simp
      · exact rest _
      · split
        · simp
        · exact rest _
    · exact rest _

/-- A node behind a trigger has an edge into it. -/
theorem incoming_ne_nil {uuidParse : String → Option UUID} (accepted : Publishable uuidParse BranchShape d) {m : WorkflowNode}
    (hm : m ∈ d.nodeList) (other : m.type ≠ .trigger) : (d.incoming m.id).isEmpty = false := by
  obtain ⟨t, ht, trigger, path⟩ := accepted.reachable m hm other
  rcases Relation.ReflTransGen.cases_tail path with same | ⟨b, -, e, he, -, target⟩
  · have is : m = t := Table.eq_of_key accepted.nodeIDsUnique hm ht same
    exact absurd (is ▸ trigger) other
  · have he : e ∈ d.incoming m.id := List.mem_filter.2 ⟨he, by simp [target]⟩
    rw [List.isEmpty_eq_false_iff]
    exact List.ne_nil_of_mem he

theorem RunInv.ready_of_resolved {g : Rules} {r : Run} {uuidParse : String → Option UUID} (inv : RunInv g r)
    (accepted : Publishable uuidParse BranchShape g.definition) {m : WorkflowNode} (hm : m ∈ g.definition.nodeList)
    (resolved : ∀ e ∈ g.definition.incoming m.id, Resolved r.nodes e.source) :
    ∃ ready, workflowNodeReadiness g.definition r.nodes m = .ok ready ∧ ready ≠ .waiting := by
  obtain ⟨ready, decided⟩ := inv.readiness_decides accepted m
  refine ⟨ready, decided, ?_⟩
  rintro rfl
  unfold workflowNodeReadiness at decided
  split at decided
  · cases decided
  · rename_i other
    rw [if_neg (by simp [incoming_ne_nil accepted hm other])] at decided
    exact readinessLoop_resolved resolved decided

/-- While no node is open, failed or cancelled, the first of the pending ones is ready. -/
theorem RunInv.exists_ready {g : Rules} {r : Run} {uuidParse : String → Option UUID} (inv : RunInv g r)
    (accepted : Publishable uuidParse BranchShape g.definition)
    (idle : ∀ n ∈ r.nodes, n.status = .pending ∨ n.status = .succeeded ∨ n.status = .skipped)
    {n : WorkflowNodeExecution} (hn : n ∈ r.nodes) (pending : n.status = .pending) :
    ∃ m ∈ g.definition.nodeList, ∃ n ∈ r.nodes, n.nodeID = m.id ∧ n.status = .pending ∧
      ∃ ready, workflowNodeReadiness g.definition r.nodes m = .ok ready ∧ ready ≠ .waiting := by
  let waits : Set String := { id | ∃ n ∈ r.nodes, n.nodeID = id ∧ n.status = .pending }
  obtain ⟨id, ⟨n, hn, rfl, pending⟩, first⟩ := (linked_wellFounded accepted).has_min waits ⟨_, n, hn, rfl, pending⟩
  obtain ⟨m, hm, id, -⟩ := inv.node_of_row hn
  refine ⟨m, hm, n, hn, id.symm, pending, inv.ready_of_resolved accepted hm fun e he => ?_⟩
  obtain ⟨he, target⟩ := List.mem_filter.1 he
  obtain ⟨⟨source, hs, named⟩, -⟩ := accepted.joined e he
  obtain ⟨q, hq, is, -⟩ := inv.row_of_node hs
  have found : stateOf r.nodes e.source = some q := (stateOf_eq_some inv.nodeIDs).2 ⟨hq, is.trans named⟩
  rcases idle q hq with waiting | well
  · have linked : g.definition.Linked e.source n.nodeID := ⟨e, he, rfl, (of_decide_eq_true target).trans id⟩
    exact absurd linked (first e.source ⟨q, hq, is.trans named, waiting⟩)
  · exact ⟨q, found, well⟩

end Ready
/-! ### What does not come back -/

section Alone
variable {h : Host} {w : World} {s : State} {pid : Nat} {o : Op} {c : Config machine}

theorem NodeWrite.started {past : List machine.Exchange} {node : WorkflowNodeExecution} {expected : WorkflowNodeExecutionStatus}
    (write : NodeWrite h past node expected) : node.status ≠ .pending := by
  cases write with
  | skip _ _ => exact nofun
  | execute _ _ _ executed => cases executed <;> exact nofun
  | fail _ _ _ => exact nofun
  | observe _ opened _ observed _ =>
    cases observed.becomes opened with
    | opened attempt status live => rcases live with rfl | rfl <;> exact nofun
    | succeeded _ _ => exact nofun
    | failed _ _ _ => exact nofun

/-- The node of the row has left pending. -/
def Left (n : WorkflowNodeExecution) (c : Config machine) : Prop :=
  ∃ n' ∈ c.world.canvas.nodes, SameNode n n' ∧ n'.status ≠ .pending

theorem left_alone {α : Type} (fresh : w.Fresh) {n : WorkflowNodeExecution} (left : Left n c) (p : Script α) :
    RunsAlone (Reachable h anything w) pid (fun _ c => Left n c) p c := by
  refine Prog.solo_keeps (fun s reach o env calling _ left => ?_) p left
  obtain ⟨n', hn', same, started⟩ := left
  obtain ⟨n'', hn'', rfl | made⟩ := node_remade fresh reach calling env hn'
  · exact ⟨n'', hn'', same, started⟩
  · cases made with
    | claim _ pending _ => exact absurd pending started
    | store _ same' write => exact ⟨n'', hn'', same.trans same', write.started⟩
    | close _ => exact ⟨_, hn'', same.trans ⟨rfl, rfl, rfl, rfl, rfl, rfl⟩, nofun⟩

/-- The execution has ended. -/
def Over (executionID : UUID) (c : Config machine) : Prop :=
  ∃ x ∈ c.world.canvas.executions, x.id = executionID ∧ x.status.terminal = true

theorem over_alone {α : Type} (fresh : w.Fresh) {executionID : UUID} (finished : Over executionID c) (p : Script α) :
    RunsAlone (Reachable h anything w) pid (fun _ c => Over executionID c) p c := by
  refine Prog.solo_keeps (fun s reach o env calling _ finished => ?_) p finished
  obtain ⟨x, hx, id, ended⟩ := finished
  obtain ⟨x', hx', id', rfl | ⟨live, -⟩⟩ := execution_kept fresh reach calling env hx
  · exact ⟨x', hx', id, ended⟩
  · rw [ended] at live
    cases live

/-- The execution is stored and has not ended. -/
def Lives (x : WorkflowExecution) (w : World) : Prop :=
  ∃ y ∈ w.canvas.executions, y.id = x.id ∧ y.orgID = x.orgID ∧ y.status.terminal = false

theorem Underway.lives {x : WorkflowExecution} {d : WorkflowDefinition} {r : Run} (run : Underway x d r c) : Lives x c.world :=
  ⟨r.execution, runOf_mem run.stored, run.same.id, run.same.orgID, run.live⟩

/-- Finalizing ends an execution that has not ended. -/
theorem finalize_alone {α : Type} (fresh : w.Fresh) {x y : WorkflowExecution} (lives : Lives x c.world) (id : y.id = x.id)
    (org : y.orgID = x.orgID) (ends : y.status.terminal = true) (closes : Bool) (f : Bool → Script α) :
    RunsAlone (Reachable h anything w) pid (fun _ c => Over x.id c)
      (canvas (.finalizeWorkflowExecution y [.pending, .running] closes) >>= f) c := by
  obtain ⟨row, hrow, id', org', live⟩ := lives
  have unended : row.status ∈ [WorkflowExecutionStatus.pending, .running] := by
    cases status : row.status with
    | pending | running => simp
    | succeeded | failed | cancelled =>
      rw [status] at live
      cases live
  refine alone_canvas rfl rfl fun c' hc' => over_alone fresh ?_ _
  have chosen : (row.orgID = y.orgID && row.id = y.id && row.status ∈ [WorkflowExecutionStatus.pending, .running]) = true := by
    simp only [Bool.and_eq_true, decide_eq_true_eq]
    exact ⟨⟨org'.trans org.symm, id'.trans id.symm⟩, unended⟩
  refine ⟨Canvas.revise y row, ?_, id', ends⟩
  rw [hc']
  simp only [CanvasOp.run, Canvas.finalizeWorkflowExecution]
  rw [List.any_eq_true.2 ⟨row, hrow, chosen⟩, if_neg (by simp)]
  exact Table.mem_update.2 ⟨row, hrow, if_pos chosen⟩

theorem failExecution_alone (fresh : w.Fresh) {x : WorkflowExecution} (lives : Lives x c.world) (code message : String) :
    RunsAlone (Reachable h anything w) pid (fun _ c => Over x.id c) (failExecution x code message) c := by
  unfold failExecution
  refine alone_sys rfl fun now c1 hc1 => ?_
  refine finalize_alone fresh (hc1 ▸ lives) ?_ ?_ ?_ _ _ <;> rfl

/-- Nothing is observed while no node is open. -/
theorem reconcileExternalNodes_idle {d : WorkflowDefinition} {x : WorkflowExecution} {rows : List WorkflowNodeExecution}
    (idle : ∀ n ∈ rows, ¬ (n.status = .queued ∨ n.status = .running)) (changed : Bool) :
    reconcileExternalNodes h d rows changed x = pure (changed, x) := by
  induction rows with
  | nil => rfl
  | cons row rows ih =>
    unfold reconcileExternalNodes
    rw [if_neg (idle row List.mem_cons_self)]
    exact ih fun n hn => idle n (List.mem_cons_of_mem _ hn)

theorem Underway.of_world {x : WorkflowExecution} {d : WorkflowDefinition} {r : Run} {c c' : Config machine}
    (run : Underway x d r c) (same : c'.world = c.world) : Underway x d r c' :=
  ⟨same ▸ run.stored, run.same, same ▸ run.pinned, same ▸ run.inv, run.live⟩

/-- The row was claimed. -/
abbrev claimedIn (x : WorkflowExecution) (nodeID : String) (now : Time) (w : World) : World :=
  { w with canvas := (Canvas.claimWorkflowNode x.orgID x.id nodeID now w.canvas).2 }

/-- The claim of a pending node is won by the only one who asks. -/
theorem claim_alone {α : Type} {Φ : Except Err α → Config machine → Prop} {R : State → Prop} {x : WorkflowExecution}
    {d : WorkflowDefinition} {r : Run} (run : Underway x d r c) {n : WorkflowNodeExecution} (hn : n ∈ r.nodes)
    (pending : n.status = .pending) {now : Time} {f : Option WorkflowNodeExecution → Script α}
    (rest : ∀ c', c'.world = claimedIn x n.nodeID now c.world → Canvas.claimed now n ∈ c'.world.canvas.nodes →
      RunsAlone R pid Φ (f (some (Canvas.claimed now n))) c') :
    RunsAlone R pid Φ (canvas (.claimWorkflowNode x.orgID x.id n.nodeID now) >>= f) c := by
  have stored : n ∈ c.world.canvas.nodes ∧ n.workflowExecutionID = x.id := by
    rw [(runOf_eq_some.1 run.stored).2] at hn
    simpa using hn
  have chosen : (n.orgID = x.orgID && n.workflowExecutionID = x.id && n.nodeID = n.nodeID && n.status = .pending) = true := by
    simp [(run.inv.owned n hn).1, run.same.orgID, stored.2, pending]
  have found : c.world.canvas.nodes.find? (fun q => q.orgID = x.orgID && q.workflowExecutionID = x.id && q.nodeID = n.nodeID &&
      q.status = .pending) = some n := by
    cases search : c.world.canvas.nodes.find? (fun q => q.orgID = x.orgID && q.workflowExecutionID = x.id && q.nodeID = n.nodeID &&
      q.status = .pending) with
    | none => exact absurd chosen (List.find?_eq_none.1 search n stored.1)
    | some q =>
      have named := List.find?_some search
      simp only [Bool.and_eq_true, decide_eq_true_eq] at named
      have hq : q ∈ r.nodes := by
        rw [(runOf_eq_some.1 run.stored).2]
        exact List.mem_filter.2 ⟨List.mem_of_find?_eq_some search, by simp [named.1.1.2]⟩
      rw [Table.eq_of_key run.inv.nodeIDs hq hn named.1.2]
  have won : Canvas.claimWorkflowNode x.orgID x.id n.nodeID now c.world.canvas = (some (Canvas.claimed now n),
      { c.world.canvas with nodes := Table.update (fun q => q.orgID = x.orgID && q.workflowExecutionID = x.id &&
        q.nodeID = n.nodeID && q.status = .pending) (Canvas.claimed now) c.world.canvas.nodes }) := by
    simp only [Canvas.claimWorkflowNode, found]
  have answer : ((CanvasOp.claimWorkflowNode x.orgID x.id n.nodeID now).run c.world.canvas).1 =
      .ok (some (Canvas.claimed now n)) := by
    simp only [CanvasOp.run, won]
  refine alone_canvas rfl answer fun c' hc' => rest c' hc' ?_
  rw [hc']
  simp only [CanvasOp.run, won]
  exact Table.mem_update.2 ⟨n, stored.1, if_pos chosen⟩

/-- What follows a claim that was won. -/
def settleClaim (h : Host) (x : WorkflowExecution) (m : WorkflowNode) (ready : Readiness) (claimed : WorkflowNodeExecution) :
    Script (Bool × WorkflowExecution) := do
  record (nodeMetric claimed .nodeExecutionStarted "")
  if ready = .shouldSkip then
    let now ← Script.now
    let _ ← updateNode { claimed with status := .skipped, completedAt := some now, updatedAt := now } .running
    pure (true, x)
  else
    let x ← executeClaimedNode h x m claimed
    pure (true, x)

/-- The first node that is ready is claimed. -/
theorem scheduleRunnableNodes_alone {R : State → Prop} {Φ : Except Err (Bool × WorkflowExecution) → Config machine → Prop}
    {x : WorkflowExecution} {d : WorkflowDefinition} {r : Run} {rows : List WorkflowNodeExecution} {c₀ : Config machine}
    (run : Underway x d r c₀) (perm : rows.Perm r.nodes) {ms : List WorkflowNode}
    (decides : ∀ m ∈ ms, ∃ ready, workflowNodeReadiness d rows m = .ok ready)
    (waits : ∀ c : Config machine, c.world = c₀.world → (∀ m ∈ ms, (stateOf rows m.id).map (·.status) = some .pending →
      workflowNodeReadiness d rows m = .ok .waiting) → Φ (.ok (false, x)) c)
    (claims : ∀ m ∈ ms, ∀ n ∈ r.nodes, n.nodeID = m.id → n.status = .pending → ∀ ready,
      workflowNodeReadiness d rows m = .ok ready → ready ≠ .waiting → ∀ (now : Time) (c : Config machine),
      c.world = claimedIn x n.nodeID now c₀.world → Canvas.claimed now n ∈ c.world.canvas.nodes →
      RunsAlone R pid Φ (settleClaim h x m ready (Canvas.claimed now n)) c)
    (hc : c.world = c₀.world) : RunsAlone R pid Φ (scheduleRunnableNodes h d rows x ms) c := by
  induction ms generalizing c with
  | nil => exact solo_ret (waits c hc fun _ hm => by cases hm)
  | cons m ms ih =>
    obtain ⟨ready, decided⟩ := decides m List.mem_cons_self
    have rest : ∀ {c : Config machine}, c.world = c₀.world → ((stateOf rows m.id).map (·.status) = some .pending →
        workflowNodeReadiness d rows m = .ok .waiting) → RunsAlone R pid Φ (scheduleRunnableNodes h d rows x ms) c := by
      intro c hc own
      refine ih (fun m hm => decides m (List.mem_cons_of_mem _ hm)) (fun c hc others => waits c hc fun m' hm' pending => ?_)
        (fun m hm => claims m (List.mem_cons_of_mem _ hm)) hc
      rcases List.mem_cons.1 hm' with rfl | hm'
      · exact own pending
      · exact others m' hm' pending
    unfold scheduleRunnableNodes
    split
    · rename_i pending
      rw [decided]
      obtain ⟨n, found, pending⟩ := Option.map_eq_some_iff.1 pending
      obtain ⟨hn, id⟩ := (stateOf_eq_some ((perm.map _).nodup_iff.2 run.inv.nodeIDs)).1 found
      have hn := perm.mem_iff.1 hn
      have claim : ready ≠ .waiting → ∀ f : Time → Option WorkflowNodeExecution → Script (Bool × WorkflowExecution),
          (∀ now claimed, f now (some claimed) = settleClaim h x m ready claimed) →
          RunsAlone R pid Φ (now >>= fun now => canvas (.claimWorkflowNode x.orgID x.id m.id now) >>= f now) c := by
        intro moves f follows
        refine alone_sys hc fun now c1 hc1 => ?_
        rw [← id]
        refine claim_alone (run.of_world hc1) hn pending fun c2 hc2 claimed => ?_
        rw [follows]
        exact claims m List.mem_cons_self n hn id pending ready decided moves now c2 (hc1 ▸ hc2) claimed
      cases ready with
      | waiting => exact rest hc fun _ => decided
      | runnable =>
        refine claim (by decide) _ ?_
        exact fun _ _ => rfl
      | shouldSkip =>
        refine claim (by decide) _ ?_
        exact fun _ _ => rfl
    · rename_i started
      exact rest hc fun pending => absurd pending started

/-- The outputs that were stored are valid JSON. -/
theorem collectOutputs_isSome {rows : List WorkflowNodeExecution} (sound : ∀ n ∈ rows, Sound n.output)
    (outputs : List (String × Json)) : (collectOutputs rows outputs).isSome = true := by
  induction rows generalizing outputs with
  | nil => rfl
  | cons row rows ih =>
    have rest := ih fun n hn => sound n (List.mem_cons_of_mem _ hn)
    have own := sound row List.mem_cons_self
    unfold collectOutputs
    split
    · exact rest _
    · exact rest _
    · rename_i malformed
      rw [malformed] at own
      simp [Sound, RawMessage.isEmpty, RawMessage.valid] at own

/-- An execution whose nodes all ended well is finalized. -/
theorem finalizeExecutionIfComplete_alone (fresh : w.Fresh) {x : WorkflowExecution} {d : WorkflowDefinition} {r : Run}
    {rows : List WorkflowNodeExecution} (run : Underway x d r c) (perm : rows.Perm r.nodes)
    (well : ∀ n ∈ r.nodes, n.status = .succeeded ∨ n.status = .skipped) :
    RunsAlone (Reachable h anything w) pid (fun _ c => Over x.id c) (finalizeExecutionIfComplete d rows x) c := by
  have length : rows.length = d.nodeList.length := by
    have keys := congrArg List.length run.inv.keys
    rw [List.length_map, List.length_map] at keys
    exact perm.length_eq.trans keys
  have ended : (rows.any fun n => n.status ≠ .succeeded && n.status ≠ .skipped) = false := by
    rw [List.any_eq_false]
    intro n hn
    rcases well n (perm.mem_iff.1 hn) with well | well <;> simp [well]
  obtain ⟨outputs, collected⟩ := Option.isSome_iff_exists.1 (collectOutputs_isSome (fun n hn =>
    (run.inv.rows n (perm.mem_iff.1 hn)).output) [])
  unfold finalizeExecutionIfComplete
  rw [if_neg (by simp [length]), ended, if_neg (by simp), collected]
  refine alone_sys rfl fun now c1 hc1 => ?_
  refine finalize_alone fresh (hc1 ▸ run.lives) ?_ ?_ ?_ _ _ <;> rfl

/-- A node that was pending has left pending, or the execution is over. -/
def MovedOn (r : Run) (executionID : UUID) (c : Config machine) : Prop :=
  (∃ n ∈ r.nodes, n.status = .pending ∧ Left n c) ∨ Over executionID c

/-- One round moves an execution that waits for nothing outside. -/
theorem advanceLoop_moves (fresh : w.Fresh) {x : WorkflowExecution} {d : WorkflowDefinition} {r : Run}
    (run : Underway x d r c) (accepted : (validateWorkflowDefinition h.uuidParse d).valid = true)
    (idle : ∀ n ∈ r.nodes, ¬ (n.status = .queued ∨ n.status = .running)) (rounds : Nat) :
    RunsAlone (Reachable h anything w) pid (fun _ c => MovedOn r x.id c) (advanceLoop h d (rounds + 1) x) c := by
  have publishable := publishable_of_valid accepted
  have perm := run.rows
  unfold advanceLoop
  refine alone_canvas rfl rfl fun c1 hc1 => ?_
  rw [reconcileExternalNodes_idle fun n hn => idle n (perm.mem_iff.1 hn)]
  refine alone_canvas hc1 rfl fun c2 hc2 => ?_
  split
  · exact Solo.bind (failExecution_alone fresh (run.of_world hc2).lives _ _) (fun _ _ finished => solo_ret (Or.inr finished)) fun _ _ => Or.inr
  rename_i unfailed
  have perm' : ∀ m, workflowNodeReadiness d (Canvas.getWorkflowNodeExecutions x.orgID x.id c.world.canvas) m =
      workflowNodeReadiness d r.nodes m := workflowNodeReadiness_perm perm run.inv.nodeIDs
  refine Solo.bind (scheduleRunnableNodes_alone (Φ := fun res c' => (res = .ok (false, x) ∧ c'.world = c.world ∧
      ∀ n ∈ r.nodes, n.status = .succeeded ∨ n.status = .skipped) ∨ ∃ n ∈ r.nodes, n.status = .pending ∧ Left n c') run perm
      (fun m _ => ?_) ?_ ?_ hc2) ?_ ?_
  · rw [perm']
    exact run.inv.readiness_decides publishable m
  · intro c3 hc3 waiting
    have left : ∀ n ∈ r.nodes, n.status = .pending ∨ n.status = .succeeded ∨ n.status = .skipped := by
      intro n hn
      have opened := idle n hn
      have failed := List.find?_eq_none.1 unfailed n (perm.mem_iff.2 hn)
      have cancelled := run.inv.live run.live n hn
      cases status : n.status <;> simp_all
    refine Or.inl ⟨rfl, hc3, fun n hn => (left n hn).resolve_left fun pending => ?_⟩
    obtain ⟨m, hm, n, hn, id, pending, ready, decided, moves⟩ := run.inv.exists_ready publishable left hn pending
    have found : stateOf (Canvas.getWorkflowNodeExecutions x.orgID x.id c.world.canvas) m.id = some n :=
      (stateOf_eq_some ((perm.map _).nodup_iff.2 run.inv.nodeIDs)).2 ⟨perm.mem_iff.2 hn, id⟩
    have waits := waiting m hm (by rw [found, Option.map_some, pending])
    rw [perm', decided] at waits
    exact moves (Except.ok.inj waits)
  · intro m _ n hn _ pending _ _ _ now c3 _ claimed
    have left : Left n c3 := ⟨_, claimed, ⟨rfl, rfl, rfl, rfl, rfl, rfl⟩, nofun⟩
    exact (left_alone fresh left _).imp fun _ _ _ left => Or.inr ⟨n, hn, pending, left⟩
  · rintro ⟨progressed, y⟩ c3 (⟨heq, same, well⟩ | ⟨n, hn, pending, left⟩)
    · cases heq
      exact (finalizeExecutionIfComplete_alone fresh (run.of_world same) perm well).imp fun _ _ _ => Or.inr
    · exact (left_alone fresh left _).imp fun _ _ _ left => Or.inl ⟨n, hn, pending, left⟩
  · rintro e c3 (⟨heq, -⟩ | left)
    · cases heq
    · exact Or.inl left

/-- AdvanceExecution does not get stuck on a workflow that was accepted: while no node is open it moves a node or ends the
    execution, and the readiness of every node is decided. -/
theorem advanceExecution_moves (fresh : w.Fresh) (reach : Reachable h anything w s) {executionID : UUID} {r : Run}
    {d : WorkflowDefinition} (hr : runOf s.config.world.canvas executionID = some r)
    (pinned : definitionOf s.config.world.canvas r.execution = some d)
    (accepted : (validateWorkflowDefinition h.uuidParse d).valid = true) (live : r.execution.status.terminal = false)
    (idle : ∀ n ∈ r.nodes, ¬ (n.status = .queued ∨ n.status = .running)) (env : Nat → Env) (calm : ∀ i, (env i).fault = none) :
    (∀ m, ∃ ready, workflowNodeReadiness d (Canvas.getWorkflowNodeExecutions r.execution.orgID r.execution.id
      s.config.world.canvas) m = .ok ready) ∧
    ∃ w', (Prog.alone (M := machine) env (advanceExecution h r.execution.orgID r.execution.workflowID r.execution.id)
        s.config.world).2 = w' ∧
      ((∃ n ∈ r.nodes, n.status = .pending ∧ ∃ n' ∈ w'.canvas.nodes, SameNode n n' ∧ n'.status ≠ .pending) ∨
        ∃ x ∈ w'.canvas.executions, x.id = executionID ∧ x.status.terminal = true) := by
  have inv := canvas_inv fresh reach
  have hx := runOf_mem hr
  obtain ⟨d', pinned', run⟩ := inv.runs _ _ hr
  rw [pinned] at pinned'
  cases pinned'
  have id : r.execution.id = executionID := runOf_id hr
  have hr : runOf s.config.world.canvas r.execution.id = some r := by rw [id]; exact hr
  refine ⟨fun m => ?_, _, rfl, ?_⟩
  · rw [workflowNodeReadiness_perm (getWorkflowNodeExecutions_perm hr run rfl) run.nodeIDs]
    exact run.readiness_decides (publishable_of_valid accepted) m
  have runs : RunsAlone (Reachable h anything w) s.procs.length (fun _ c => MovedOn r executionID c)
      (advanceExecution h r.execution.orgID r.execution.workflowID r.execution.id) s.config := by
    refine advanceExecution_alone fresh reach hx live fun c d' y r' run' same _ only => ?_
    have nodes : r'.nodes = r.nodes := by
      rw [(runOf_eq_some.1 run'.stored).2, (runOf_eq_some.1 hr).2, only.nodes, same.id]
    have versions : s.config.world.canvas.versions <+: c.world.canvas.versions := by rw [only.versions]
    have pinned := definitionOf_same versions (same.trans run'.same) pinned
    rw [run'.pinned] at pinned
    cases pinned
    refine (advanceLoop_moves fresh run' accepted (nodes ▸ idle) (d.nodeList.length + 1)).imp fun _ c' _ moved => ?_
    unfold MovedOn at moved ⊢
    rw [nodes, same.id, id] at moved
    exact moved
  obtain ⟨t, -, after, moved⟩ := alone_of_runs reach (.advanceExecution r.execution.orgID r.execution.workflowID r.execution.id)
    rfl runs env calm
  rw [← after]
  exact moved

end Alone

/-- The process that started the execution crashed before it claimed a node. -/
def startedRun : List (Action machine Request) :=
  [.spawn (.startExecution (sampleStart (.json (.obj [("go", .bool true)]))))] ++ steps 0 0 (idsFrom 100 12) ++ [.crash 0]

theorem startedRun_moves : ∃ s r w', (System.init gateWorld).run (body sampleHost) startedRun = some s ∧
    runOf s.config.world.canvas ⟨103⟩ = some r ∧ (r.nodes.all fun n => n.status = .pending) = true ∧
    (Prog.alone (M := machine) (fun _ => sampleEnv 0 ⟨900⟩) (advanceExecution sampleHost ⟨1⟩ ⟨2⟩ ⟨103⟩) s.config.world).2 = w' ∧
    ((∃ n ∈ r.nodes, n.status = .pending ∧ ∃ n' ∈ w'.canvas.nodes, SameNode n n' ∧ n'.status ≠ .pending) ∨
      ∃ x ∈ w'.canvas.executions, x.id = ⟨103⟩ ∧ x.status.terminal = true) := by
  have run : ∃ s r, (System.init gateWorld).run (body sampleHost) startedRun = some s ∧
      runOf s.config.world.canvas ⟨103⟩ = some r ∧ definitionOf s.config.world.canvas r.execution = some sampleDefinition ∧
      r.execution.orgID = ⟨1⟩ ∧ r.execution.workflowID = ⟨2⟩ ∧ r.execution.id = ⟨103⟩ ∧
      r.execution.status.terminal = false ∧ (r.nodes.all fun n => n.status = .pending) = true :=
    ⟨_, _, rfl, rfl, rfl, rfl, rfl, rfl, rfl, rfl⟩
  obtain ⟨s, r, run, hr, pinned, org, workflow, id, live, pending⟩ := run
  have idle : ∀ n ∈ r.nodes, ¬ (n.status = .queued ∨ n.status = .running) := by
    intro n hn
    have := of_decide_eq_true (List.all_eq_true.1 pending n hn)
    simp [this]
  obtain ⟨-, w', after, moved⟩ := advanceExecution_moves gateWorld_fresh (System.reach_of_run (fun _ _ _ => trivial) run) hr
    pinned (by decide +kernel) live idle (fun _ => sampleEnv 0 ⟨900⟩) fun _ => rfl
  rw [id, org, workflow] at after
  exact ⟨s, r, w', run, hr, pending, after, moved⟩

end Windylane
