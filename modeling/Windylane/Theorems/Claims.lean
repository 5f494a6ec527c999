import Windylane.Theorems.Coherence

/-! The claims of nodes. A process that claimed a node, or recovers its claim, stores the whole row once it is done, over
    whatever row is running then. The claim is no lease: a process that is slow for as long as a claim takes to go stale
    does not learn of it. While claims are recovered only from processes that are gone, each has one holder, and what a
    holder stores is stored over the row as the claim left it. -/

namespace Windylane

open Conc Script Prog

/-- The process is at work with the claim of the node. -/
def Holds (s : State) (pid : Nat) (executionID : UUID) (nodeID : String) : Prop :=
  s.Busy pid ∧ holding executionID nodeID (history pid s.config.trace) = true

/-- A claim is recovered while nobody else is at work with it, and the row is still as the claim left it. -/
def RecoversAlone (s : State) (a : Action machine Request) : Prop :=
  ∀ pid env executionID nodeID, a = .step pid env → s.Calling pid (.sys (.recovery executionID nodeID)) →
    (∀ other, Holds s other executionID nodeID → other = pid) ∧
      ∃ n ∈ s.config.world.canvas.nodes, n.workflowExecutionID = executionID ∧ n.nodeID = nodeID ∧ n.status = .running ∧
        Unlinked n

/-- The links that the row has, the other has. -/
structure LinksKept (row n : WorkflowNodeExecution) : Prop where
  task : ∀ id, row.queueTaskID = some id → n.queueTaskID = some id
  webhook : ∀ id, row.webhookDeliveryID = some id → n.webhookDeliveryID = some id

theorem LinksKept.refl (n : WorkflowNodeExecution) : LinksKept n n := ⟨fun _ link => link, fun _ link => link⟩

theorem LinksKept.trans {n n' n'' : WorkflowNodeExecution} (first : LinksKept n n') (second : LinksKept n' n'') :
    LinksKept n n'' :=
  ⟨fun id link => second.task id (first.task id link), fun id link => second.webhook id (first.webhook id link)⟩

/-- The row is as a claim leaves it, or the node was cancelled since. -/
def AsClaimed (n : WorkflowNodeExecution) : Prop := (n.status = .running ∧ Unlinked n) ∨ n.status = .cancelled

/-- Every claim has one holder, and no link that was read is gone. -/
structure Exclusive (s : State) : Prop where
  one : ∀ pid other executionID nodeID, Holds s pid executionID nodeID → Holds s other executionID nodeID → pid = other
  row : ∀ pid executionID nodeID, Holds s pid executionID nodeID →
    ∃ n ∈ s.config.world.canvas.nodes, n.workflowExecutionID = executionID ∧ n.nodeID = nodeID ∧ AsClaimed n
  links : ∀ pid row, Saw (history pid s.config.trace) row →
    ∃ n ∈ s.config.world.canvas.nodes, SameNode row n ∧ LinksKept row n

/-! ### What is stored -/

/-- A delay that runs was not queued yet. -/
def DelayOpen (n : WorkflowNodeExecution) : Prop := n.nodeType = .delay → n.status = .running → n.availableAt = none

/-- A row is stored for a claim, or for what was observed of an open row. -/
theorem NodeWrite.held_or_observed {h : Host} {past : List machine.Exchange} {node : WorkflowNodeExecution}
    {expected : WorkflowNodeExecutionStatus} (write : NodeWrite h past node expected) :
    (∃ base, Held past base ∧ SameNode base node ∧ expected = .running) ∨
      ∃ row made now, Saw past row ∧ SameNode row node ∧ (row.status = .queued ∨ row.status = .running) ∧
        Observation h past row now made ∧ node = { made with updatedAt := now } ∧ expected = row.status := by
  cases write with
  | skip held _ => exact Or.inl ⟨_, held, ⟨rfl, rfl, rfl, rfl, rfl, rfl⟩, rfl⟩
  | execute held _ _ executed =>
    refine Or.inl ⟨_, held, ?_, rfl⟩
    cases executed <;> exact ⟨rfl, rfl, rfl, rfl, rfl, rfl⟩
  | fail held _ _ => exact Or.inl ⟨_, held, ⟨rfl, rfl, rfl, rfl, rfl, rfl⟩, rfl⟩
  | observe saw opened _ observed _ =>
    refine Or.inr ⟨_, _, _, saw, ?_, opened, observed, rfl, rfl⟩
    cases observed.becomes opened <;> exact ⟨rfl, rfl, rfl, rfl, rfl, rfl⟩

section Observing
variable {h : Host} {past : List machine.Exchange} {row node : WorkflowNodeExecution} {now : Time}

/-- What is observed keeps the links of the row. -/
theorem Observation.links (observed : Observation h past row now node)
    (opened : row.status = .queued ∨ row.status = .running) :
    SameNode row node ∧ node.queueTaskID = row.queueTaskID ∧ node.webhookDeliveryID = row.webhookDeliveryID ∧
      node.availableAt = row.availableAt := by
  cases observed.becomes opened <;> exact ⟨⟨rfl, rfl, rfl, rfl, rfl, rfl⟩, rfl, rfl, rfl⟩

/-- A running row of which something is observed is linked. -/
theorem Observation.of_running (observed : Observation h past row now node) (running : row.status = .running)
    (delays : DelayOpen row) : (∃ id, row.queueTaskID = some id) ∨ ∃ id, row.webhookDeliveryID = some id := by
  cases observed with
  | task link _ => exact Or.inl ⟨_, link⟩
  | delivery _ link _ => exact Or.inr ⟨_, link⟩
  | delay _ _ type due =>
    rw [delays type running] at due
    cases due
  | same _ _ queued _ =>
    rw [running] at queued
    cases queued

/-- Whatever is linked where the row is stored was linked in the row. -/
theorem Observation.keeps (observed : Observation h past row now node)
    (opened : row.status = .queued ∨ row.status = .running) (coherent : NodeCoherent row) {n : WorkflowNodeExecution}
    (same : SameNode row n) (kept : LinksKept row n) (linked : Linked n) : LinksKept n node := by
  obtain ⟨-, task', webhook', -⟩ := observed.links opened
  have unlike : ∀ {type : WorkflowNodeType}, row.nodeType = type → n.nodeType = type := fun type => same.nodeType.trans type
  refine ⟨fun id link => task'.trans ?_, fun id link => webhook'.trans ?_⟩
  · have type := linked.task (by simp [link])
    cases observed with
    | task found _ =>
      rw [kept.task _ found] at link
      exact found.trans link
    | delivery _ found _ =>
      rw [linked.webhook (by simp [kept.webhook _ found])] at type
      cases type
    | delay _ _ isDelay _ =>
      rw [unlike isDelay] at type
      cases type
    | same task webhook queued delay =>
      rcases coherent.queued queued with ⟨-, linked⟩ | ⟨-, linked⟩ | ⟨isDelay, linked⟩
      · exact absurd task linked
      · exact absurd webhook linked
      · exact absurd (delay isDelay) linked
  · have type := linked.webhook (by simp [link])
    cases observed with
    | task found _ =>
      rw [linked.task (by simp [kept.task _ found])] at type
      cases type
    | delivery _ found _ =>
      rw [kept.webhook _ found] at link
      exact found.trans link
    | delay _ _ isDelay _ =>
      rw [unlike isDelay] at type
      cases type
    | same task webhook queued delay =>
      rcases coherent.queued queued with ⟨-, linked⟩ | ⟨-, linked⟩ | ⟨isDelay, linked⟩
      · exact absurd task linked
      · exact absurd webhook linked
      · exact absurd (delay isDelay) linked

end Observing

section Runs
variable {h : Host} {w : World} {s : State} {allow : State → Action machine Request → Prop} {pid : Nat} {o : Op}

theorem delayOpen_law (fresh : w.Fresh) : RowLaw h allow w fun _ n => DelayOpen n where
  lasts := fun _ _ _ _ _ _ _ _ kept => kept
  new := fun _ _ new _ _ => new.2.2.2.2.2.delay
  claim := fun s pid n _ _ reach hn pending _ _ _ _ => by
    obtain ⟨r, d, -, hr, -, run⟩ := (canvas_inv fresh reach).run_of_node hn
    exact ((run.rows n hr).untouched pending).delay
  store := fun s pid node expected reach write seen => by
    cases write with
    | skip _ _ => exact nofun
    | execute _ _ _ executed => cases executed <;> exact nofun
    | fail _ _ _ => exact nofun
    | @observe row made now saw opened _ observed _ =>
      intro typed running
      obtain ⟨same, -, -, available⟩ := observed.links opened
      have linked := ((rows_run (coherent_law fresh) fresh reach).2 pid row saw).2
      have type : row.nodeType = .delay := same.nodeType.symm.trans typed
      refine available.trans ?_
      cases observed with
      | task link _ =>
        rw [linked.task (by simp [link])] at type
        cases type
      | delivery _ link _ =>
        rw [linked.webhook (by simp [link])] at type
        cases type
      | delay _ _ _ due =>
        unfold resumeDelay at running
        split at running
        · cases running
        · exact seen row saw type running
      | same _ _ queued _ => exact seen row saw type running
  close := fun _ _ _ _ _ _ _ _ => nofun

/-- The links of a row that was read are those of the node. -/
theorem Exclusive.links_of (exclusive : Exclusive s) (fresh : w.Fresh) (reach : Reachable h allow w s)
    {row n : WorkflowNodeExecution} (saw : Saw (history pid s.config.trace) row) (hn : n ∈ s.config.world.canvas.nodes)
    (same : SameNode row n) : LinksKept row n := by
  obtain ⟨n', hn', same', kept⟩ := exclusive.links pid row saw
  have is : n' = n := (canvas_inv fresh reach).node_unique hn hn' (same'.workflowExecutionID.trans same.workflowExecutionID.symm)
    (Or.inl (same'.nodeID.trans same.nodeID.symm))
  exact is ▸ kept

/-- A row that is stored over `n` keeps its links. -/
theorem Exclusive.kept (exclusive : Exclusive s) (fresh : w.Fresh) (reach : Reachable h allow w s)
    (calling : s.Calling pid o) {n n' : WorkflowNodeExecution} (hn : n ∈ s.config.world.canvas.nodes)
    (made : NodeMade h (history pid s.config.trace) o n n') : LinksKept n n' := by
  cases made with
  | claim _ _ _ => exact ⟨fun _ link => link, fun _ link => link⟩
  | close _ => exact ⟨fun _ link => link, fun _ link => link⟩
  | store called same write =>
    have inv := canvas_inv fresh reach
    have rows := rows_run (coherent_law fresh) fresh reach
    rcases write.held_or_observed with ⟨base, held, source, running⟩ | ⟨row, made, now, saw, same', opened, observed, rfl, status⟩
    · -- the row is as the claim left it, without links
      have mine : Holds s pid base.workflowExecutionID base.nodeID := ⟨⟨o, calling⟩, held.holding⟩
      obtain ⟨row, hrow, execution, node, claimed⟩ := exclusive.row _ _ _ mine
      have is : row = n := inv.node_unique hn hrow
        (execution.trans (source.workflowExecutionID.symm.trans same.workflowExecutionID))
        (Or.inl (node.trans (source.nodeID.symm.trans same.nodeID)))
      subst is
      rcases claimed with ⟨-, unlinked⟩ | cancelled
      · exact ⟨fun _ link => by simp [unlinked.task] at link, fun _ link => by simp [unlinked.webhook] at link⟩
      · rw [running] at cancelled
        cases cancelled
    · have same := same'.trans same.symm
      have keeps := observed.keeps opened (rows.2 pid row saw).1 same (exclusive.links_of fresh reach saw hn same) (rows.1 n hn).2
      exact ⟨keeps.task, keeps.webhook⟩

/-- Nobody but its holder writes a claimed row, except to cancel it. -/
theorem Exclusive.unwritten (exclusive : Exclusive s) (fresh : w.Fresh) (reach : Reachable h allow w s)
    (calling : s.Calling pid o) {n n' : WorkflowNodeExecution} (hn : n ∈ s.config.world.canvas.nodes)
    (made : NodeMade h (history pid s.config.trace) o n n') (claimed : AsClaimed n)
    (free : Holds s pid n.workflowExecutionID n.nodeID → o.storesNode n.workflowExecutionID n.nodeID = false) :
    AsClaimed n' := by
  cases made with
  | claim _ pending _ =>
    rcases claimed with ⟨running, -⟩ | cancelled
    · rw [pending] at running
      cases running
    · rw [pending] at cancelled
      cases cancelled
  | close _ => exact Or.inr rfl
  | store called same write =>
    rcases write.held_or_observed with ⟨base, held, source, -⟩ | ⟨row, made, now, saw, same', opened, observed, rfl, status⟩
    · have mine : Holds s pid n.workflowExecutionID n.nodeID := by
        refine ⟨⟨o, calling⟩, ?_⟩
        rw [← same.workflowExecutionID, ← same.nodeID, source.workflowExecutionID, source.nodeID]
        exact held.holding
      have stores := free mine
      rw [called] at stores
      simp [Op.storesNode, same.workflowExecutionID, same.nodeID] at stores
    · -- an open row that is not linked is not observed
      have kept := exclusive.links_of fresh reach saw hn (same'.trans same.symm)
      rcases claimed with ⟨running, unlinked⟩ | cancelled
      · rcases observed.of_running (status.symm.trans running) ((rows_run (delayOpen_law fresh) fresh reach).2 pid row saw) with
          ⟨id, link⟩ | ⟨id, link⟩
        · have := kept.task id link
          rw [unlinked.task] at this
          cases this
        · have := kept.webhook id link
          rw [unlinked.webhook] at this
          cases this
      · rw [← status, cancelled] at opened
        rcases opened with opened | opened <;> cases opened

/-! ### Whole runs -/

/-- A claim that was won was free. -/
theorem claimed_free {env : Env} {w : World} {orgID executionID : UUID} {nodeID : String} {now : Time}
    {row : WorkflowNodeExecution}
    (won : ((Op.canvas (.claimWorkflowNode orgID executionID nodeID now)).exec env w).1 = .ok (some row)) :
    ∃ n ∈ w.canvas.nodes, n.workflowExecutionID = executionID ∧ n.nodeID = nodeID ∧ n.status = .pending ∧
      row = Canvas.claimed now n := by
  rw [Op.exec_ok won] at won
  simp only [Op.run, CanvasOp.run, Canvas.claimWorkflowNode, Except.ok.injEq] at won
  split at won
  · rename_i n found
    cases won
    have chosen := List.find?_some found
    simp only [Bool.and_eq_true, decide_eq_true_eq] at chosen
    exact ⟨n, List.mem_of_find?_eq_some found, chosen.1.1.2, chosen.1.2, chosen.2, rfl⟩
  · cases won

/-- How a process comes to hold a claim: it did before, or it takes it now. -/
theorem holds_cases (reach : Reachable h allow w s) {t : State} {a : Action machine Request}
    (taken : s.next (body h) a = some t) {executionID : UUID} {nodeID : String} (holds : Holds t pid executionID nodeID) :
    (Holds s pid executionID nodeID ∧ ∀ env o, a = .step pid env → s.Calling pid o →
      o.storesNode executionID nodeID = false) ∨
    ∃ env o, a = .step pid env ∧ s.Calling pid o ∧
      acquires executionID nodeID ⟨o, (o.exec env s.config.world).1⟩ = true := by
  obtain ⟨busy, holding⟩ := holds
  rcases reach.busy_cases taken busy with new | ⟨other, busy, same⟩ | ⟨env, o, rfl, calling, called⟩
  · rw [new] at holding
    cases holding
  · rw [same] at holding
    exact Or.inl ⟨⟨busy, holding⟩, fun env _ step => absurd step (other env)⟩
  · rw [called, holding_concat, Bool.or_eq_true, Bool.and_eq_true] at holding
    rcases holding with acquired | ⟨held, others⟩
    · exact Or.inr ⟨env, o, rfl, calling, acquired⟩
    · refine Or.inl ⟨⟨⟨o, calling⟩, held⟩, fun _ o' _ calling' => ?_⟩
      rw [calling.unique calling']
      simpa using others

/-- A claim is taken by winning or by recovering it. -/
theorem acquires_cases {executionID : UUID} {nodeID : String} {answer : machine.Answer o}
    (acquired : acquires executionID nodeID ⟨o, answer⟩ = true) :
    (∃ orgID now row, (⟨o, answer⟩ : machine.Exchange) =
      ⟨.canvas (.claimWorkflowNode orgID executionID nodeID now), .ok (some row)⟩) ∨ o = .sys (.recovery executionID nodeID) := by
  unfold acquires at acquired
  split at acquired
  · rename_i heq
    simp only [Bool.and_eq_true, decide_eq_true_eq] at acquired
    rw [← acquired.1, ← acquired.2]
    exact Or.inl ⟨_, _, _, heq⟩
  · rename_i heq
    simp only [Bool.and_eq_true, decide_eq_true_eq] at acquired
    rw [← acquired.1, ← acquired.2]
    cases heq
    exact Or.inr rfl
  · cases acquired

/-- The row of a claim that is taken now. -/
theorem acquired_row (fresh : w.Fresh) (reach : Reachable h RecoversAlone w s) {env : Env} {executionID : UUID}
    {nodeID : String} (allowed : RecoversAlone s (.step pid env)) (calling : s.Calling pid o)
    (acquired : acquires executionID nodeID ⟨o, (o.exec env s.config.world).1⟩ = true) :
    ∃ n ∈ s.config.world.canvas.nodes, n.workflowExecutionID = executionID ∧ n.nodeID = nodeID ∧ Unlinked n ∧
      ((n.status = .pending ∧ ∃ now, Canvas.claimed now n ∈ (o.exec env s.config.world).2.canvas.nodes) ∨
        n.status = .running ∧ n ∈ (o.exec env s.config.world).2.canvas.nodes ∧
          ∀ other, Holds s other executionID nodeID → other = pid) := by
  rcases acquires_cases acquired with ⟨orgID, now, row, heq⟩ | rfl
  · generalize answered : (o.exec env s.config.world).1 = answer at heq
    cases heq
    obtain ⟨n, hn, execution, node, pending, rfl⟩ := claimed_free answered
    obtain ⟨r, d, -, hr, -, run⟩ := (canvas_inv fresh reach).run_of_node hn
    exact ⟨n, hn, execution, node, (run.rows n hr).untouched pending,
      Or.inl ⟨pending, now, readRows_stored answered (by simp [readRows])⟩⟩
  · obtain ⟨free, n, hn, execution, node, running, unlinked⟩ := allowed pid env _ _ rfl calling
    exact ⟨n, hn, execution, node, unlinked, Or.inr ⟨running, by simpa [Op.exec_sys] using hn, free⟩⟩

/-- What an action makes of the rows: nothing, or what one call makes of them. -/
theorem nodes_next (fresh : w.Fresh) (reach : Reachable h allow w s) {t : State} {a : Action machine Request}
    (taken : s.next (body h) a = some t) {n : WorkflowNodeExecution} (hn : n ∈ s.config.world.canvas.nodes) :
    ∃ n' ∈ t.config.world.canvas.nodes, n' = n ∨ ∃ pid env o, a = .step pid env ∧ s.Calling pid o ∧
      NodeMade h (history pid s.config.trace) o n n' := by
  rcases System.next_cases taken with ⟨request, -, rfl⟩ | ⟨actor, env, request, o, k, rfl, ha, rfl⟩ | ⟨actor, q, -, ha, rfl⟩
  · exact ⟨n, hn, Or.inl rfl⟩
  · obtain ⟨n', hn', rfl | made⟩ := node_remade fresh reach ⟨request, k, ha⟩ env hn
    · exact ⟨n', hn', Or.inl rfl⟩
    · exact ⟨n', hn', Or.inr ⟨actor, env, o, rfl, ⟨request, k, ha⟩, made⟩⟩
  · exact ⟨n, hn, Or.inl rfl⟩

/-- A row that was read was read before, or is stored now. -/
theorem saw_next {t : State} {a : Action machine Request} (taken : s.next (body h) a = some t) {row : WorkflowNodeExecution}
    (saw : Saw (history pid t.config.trace) row) :
    Saw (history pid s.config.trace) row ∨ row ∈ t.config.world.canvas.nodes := by
  rcases System.next_cases taken with ⟨request, -, rfl⟩ | ⟨actor, env, request, o, k, rfl, ha, rfl⟩ | ⟨actor, q, -, ha, rfl⟩
  · exact Or.inl saw
  · obtain ⟨c, hc, read⟩ := saw
    by_cases mine : actor = pid
    · rw [Config.after_trace, history_self mine] at hc
      rcases List.mem_append.1 hc with hc | hc
      · exact Or.inl ⟨c, hc, read⟩
      · rw [List.mem_singleton.1 hc] at read
        exact Or.inr (readRows_stored rfl read)
    · rw [Config.after_trace, history_other mine] at hc
      exact Or.inl ⟨c, hc, read⟩
  · exact Or.inl saw

theorem NodeMade.same {past : List machine.Exchange} {n n' : WorkflowNodeExecution} (made : NodeMade h past o n n') :
    SameNode n n' := by
  cases made with
  | claim _ _ _ => exact ⟨rfl, rfl, rfl, rfl, rfl, rfl⟩
  | store _ same _ => exact same
  | close _ => exact ⟨rfl, rfl, rfl, rfl, rfl, rfl⟩

/-- The row of a claim that is held stays as the claim left it. -/
theorem Exclusive.row_next (exclusive : Exclusive s) (fresh : w.Fresh) (reach : Reachable h allow w s) {t : State}
    {a : Action machine Request} (taken : s.next (body h) a = some t) {executionID : UUID} {nodeID : String}
    (holds : Holds s pid executionID nodeID)
    (keeps : ∀ env o, a = .step pid env → s.Calling pid o → o.storesNode executionID nodeID = false) :
    ∃ n ∈ t.config.world.canvas.nodes, n.workflowExecutionID = executionID ∧ n.nodeID = nodeID ∧ AsClaimed n := by
  obtain ⟨n, hn, rfl, rfl, claimed⟩ := exclusive.row _ _ _ holds
  obtain ⟨n', hn', rfl | ⟨actor, env, o, rfl, calling, made⟩⟩ := nodes_next fresh reach taken hn
  · exact ⟨n', hn', rfl, rfl, claimed⟩
  · refine ⟨n', hn', made.same.workflowExecutionID, made.same.nodeID,
      exclusive.unwritten fresh reach calling hn made claimed fun held => ?_⟩
    have is := exclusive.one _ _ _ _ holds held
    subst is
    exact keeps env o rfl calling

/-- Nobody else holds a claim that is taken now. -/
theorem Exclusive.acquired_alone (exclusive : Exclusive s) (fresh : w.Fresh) (reach : Reachable h RecoversAlone w s)
    {env : Env} {executionID : UUID} {nodeID : String} (allowed : RecoversAlone s (.step pid env)) (calling : s.Calling pid o)
    (acquired : acquires executionID nodeID ⟨o, (o.exec env s.config.world).1⟩ = true) {other : Nat}
    (holds : Holds s other executionID nodeID) : other = pid := by
  obtain ⟨n, hn, execution, node, -, ⟨pending, -⟩ | ⟨-, -, free⟩⟩ := acquired_row fresh reach allowed calling acquired
  · obtain ⟨n', hn', execution', node', claimed⟩ := exclusive.row _ _ _ holds
    have is : n' = n := (canvas_inv fresh reach).node_unique hn hn' (execution'.trans execution.symm)
      (Or.inl (node'.trans node.symm))
    subst is
    rcases claimed with ⟨running, -⟩ | cancelled
    · rw [pending] at running
      cases running
    · rw [pending] at cancelled
      cases cancelled
  · exact free other holds

theorem Exclusive.step (exclusive : Exclusive s) (fresh : w.Fresh) (reach : Reachable h RecoversAlone w s) {t : State}
    {a : Action machine Request} (allowed : RecoversAlone s a) (taken : s.next (body h) a = some t) : Exclusive t where
  one := fun pid other executionID nodeID holds holds' => by
    rcases holds_cases reach taken holds with ⟨before, -⟩ | ⟨env, o, rfl, calling, acquired⟩
    · rcases holds_cases reach taken holds' with ⟨before', -⟩ | ⟨env, o, rfl, calling, acquired⟩
      · exact exclusive.one _ _ _ _ before before'
      · exact exclusive.acquired_alone fresh reach allowed calling acquired before
    · rcases holds_cases reach taken holds' with ⟨before', -⟩ | ⟨env', o', step, -⟩
      · exact (exclusive.acquired_alone fresh reach allowed calling acquired before').symm
      · cases step
        rfl
  row := fun pid executionID nodeID holds => by
    rcases holds_cases reach taken holds with ⟨before, keeps⟩ | ⟨env, o, rfl, calling, acquired⟩
    · exact exclusive.row_next fresh reach taken before keeps
    · obtain ⟨n, hn, execution, node, unlinked, row⟩ := acquired_row fresh reach allowed calling acquired
      obtain ⟨request, k, hp⟩ := calling
      simp only [System.next, hp, Option.some.injEq] at taken
      subst taken
      rcases row with ⟨-, now, stored⟩ | ⟨running, stored, -⟩
      · exact ⟨_, stored, execution, node, Or.inl ⟨rfl, unlinked.task, unlinked.webhook, unlinked.delay⟩⟩
      · exact ⟨n, stored, execution, node, Or.inl ⟨running, unlinked⟩⟩
  links := fun pid row saw => by
    rcases saw_next taken saw with saw | stored
    · obtain ⟨n, hn, same, kept⟩ := exclusive.links pid row saw
      obtain ⟨n', hn', rfl | ⟨actor, env, o, rfl, calling, made⟩⟩ := nodes_next fresh reach taken hn
      · exact ⟨n', hn', same, kept⟩
      · exact ⟨n', hn', same.trans made.same, kept.trans (exclusive.kept fresh reach calling hn made)⟩
    · exact ⟨row, stored, .refl row, .refl row⟩

theorem exclusive_run (fresh : w.Fresh) (reach : Reachable h RecoversAlone w s) : Exclusive s := by
  refine reach.invariant Exclusive ?_ fun s t a prior exclusive allowed taken => exclusive.step fresh prior allowed taken
  have idle : ∀ pid, ¬ (System.init w : State).Busy pid := by
    rintro pid ⟨o, request, k, hp⟩
    simp [System.init] at hp
  refine ⟨fun pid _ _ _ holds => absurd holds.1 (idle pid), fun pid _ _ holds => absurd holds.1 (idle pid), ?_⟩
  rintro pid row ⟨c, hc, -⟩
  cases hc

end Runs
end Windylane
