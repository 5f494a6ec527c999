import Windylane.Theorems.Guarantees
import Windylane.Theorems.Validation

/-! The meaning of a workflow on an input, without any scheduling, and that executions follow it: in a run that
    recovers no stale claim, a node of an execution that succeeded is succeeded when it is active and skipped when
    it is not. Work is dispatched only behind an active edge, unless a claim is recovered that was won to skip its
    node. -/

namespace Windylane

open Conc

/-! ### Meaning -/

/-- The condition `m` comes out as `result` on the input. -/
def Decides (input : RawMessage) (m : WorkflowNode) (result : Bool) : Prop :=
  ∃ config, parseWorkflowConditionConfig m.config = .ok config ∧ evaluateWorkflowCondition config input = .ok result

/-- A trigger is active; another node is when an edge from an active node enters it, on the branch that is taken
    if the edge carries one and leaves a condition. -/
inductive Active (d : WorkflowDefinition) (input : RawMessage) : String → Prop
  | trigger {m : WorkflowNode} (member : m ∈ d.nodeList) (type : m.type = .trigger) : Active d input m.id
  | edge {m source : WorkflowNode} {e : WorkflowEdge} (member : m ∈ d.nodeList) (type : m.type ≠ .trigger)
      (incoming : e ∈ d.incoming m.id) (origin : source ∈ d.nodeList) (id : source.id = e.source)
      (active : Active d input source.id)
      (branch : source.type = .condition → ∀ b, parseWorkflowBranch e.condition = .ok (some b) → Decides input source b) :
      Active d input m.id

/-- The rows of an execution are what the workflow means on its input. -/
structure Follows (d : WorkflowDefinition) (r : Run) : Prop where
  succeeded : ∀ n ∈ r.nodes, Active d r.execution.input n.nodeID → n.status = .succeeded
  skipped : ∀ n ∈ r.nodes, ¬ Active d r.execution.input n.nodeID → n.status = .skipped
  result : ∀ n ∈ r.nodes, n.status = .succeeded → ∀ m ∈ d.nodeList, m.id = n.nodeID → m.type = .condition →
    Evaluated r.execution.input m n.output

/-- Two executions that follow one workflow on one input agree node by node. -/
theorem Follows.agree {d : WorkflowDefinition} {r r' : Run} (h : Follows d r) (h' : Follows d r')
    (input : r.execution.input = r'.execution.input) {n n' : WorkflowNodeExecution} (hn : n ∈ r.nodes) (hn' : n' ∈ r'.nodes)
    (id : n.nodeID = n'.nodeID) : n.status = n'.status := by
  by_cases active : Active d r.execution.input n.nodeID
  · rw [h.succeeded n hn active, h'.succeeded n' hn' (input ▸ id ▸ active)]
  · rw [h.skipped n hn active, h'.skipped n' hn' (input ▸ id ▸ active)]

/-! ### Conditions -/

theorem workflowConditionResult_result (b : Bool) :
    workflowConditionResult (.json (.obj [("result", .bool b)])) = .ok b := by
  cases b <;> decide +kernel

/-- The stored result of a condition is how it comes out. -/
theorem Evaluated.decides {input output : RawMessage} {m : WorkflowNode} (h : Evaluated input m output) (b : Bool) :
    workflowConditionResult output = .ok b ↔ Decides input m b := by
  obtain ⟨config, result, parsed, evaluated, rfl⟩ := h
  rw [workflowConditionResult_result]
  constructor
  · rintro ⟨⟩
    exact ⟨config, parsed, evaluated⟩
  · rintro ⟨config', parsed', evaluated'⟩
    rw [parsed] at parsed'
    cases parsed'
    rw [evaluated] at evaluated'
    cases evaluated'
    rfl

/-! ### Graphs -/

theorem linked_wellFounded {uuidParse : String → Option UUID} {d : WorkflowDefinition}
    (accepted : Publishable uuidParse BranchShape d) : WellFounded d.Linked := by
  refine Graph.wellFounded_of_acyclic (List.finite_toSet (d.nodeList.map (·.id))) ?_ accepted.acyclic
  rintro a b ⟨e, he, rfl, rfl⟩
  obtain ⟨⟨m, hm, source⟩, ⟨m', hm', target⟩, -⟩ := accepted.joined e he
  exact ⟨source ▸ List.mem_map_of_mem hm, target ▸ List.mem_map_of_mem hm'⟩

section Rows
variable {d : WorkflowDefinition} {done : WorkflowNodeExecution → Prop} {r : Run}

theorem RunInv.node?_eq {g : Rules} (inv : RunInv g r) {m : WorkflowNode} (hm : m ∈ g.definition.nodeList) :
    g.definition.node? m.id = some m := by
  have nodup : (g.definition.nodeList.reverse.map (·.id)).Nodup := by
    rw [List.map_reverse]
    exact List.nodup_reverse.2 inv.definition_ids
  exact Table.find?_key nodup (List.mem_reverse.2 hm)

/-- An edge is active when its source succeeded and its branch, if it has one, is the one taken. -/
theorem RunInv.activeEdge_iff (inv : RunInv ⟨d, True, done⟩ r) {e : WorkflowEdge} {source : WorkflowNode}
    (hm : source ∈ d.nodeList) (id : source.id = e.source) {q : WorkflowNodeExecution} (hq : q ∈ r.nodes)
    (hid : q.nodeID = e.source) :
    ActiveEdge d r.nodes e ↔ q.status = .succeeded ∧ (source.type = .condition → ∀ b,
      parseWorkflowBranch e.condition = .ok (some b) → Decides r.execution.input source b) := by
  have state : stateOf r.nodes e.source = some q := (stateOf_eq_some inv.nodeIDs).2 ⟨hq, hid⟩
  have node : (d.node? e.source).map (·.type) = some source.type := by
    rw [← id, inv.node?_eq hm]
    rfl
  have evaluated : q.status = .succeeded → source.type = .condition → Evaluated r.execution.input source q.output :=
    fun hs condition => (inv.rows q hq).result hs source hm (id.trans hid.symm) condition
  unfold ActiveEdge
  rw [node]
  constructor
  · rintro ⟨q', hq', hs, branch⟩
    cases state.symm.trans hq'
    exact ⟨hs, fun condition b hb => ((evaluated hs condition).decides b).1 (branch (by rw [condition]) b hb)⟩
  · rintro ⟨hs, branch⟩
    refine ⟨q, state, hs, fun condition b hb => ?_⟩
    have condition := Option.some.inj condition
    exact ((evaluated hs condition).decides b).2 (branch condition b hb)

/-- In an execution that succeeded, what succeeded is what is active. -/
theorem RunInv.succeeded_iff_active (inv : RunInv ⟨d, True, done⟩ r) (wf : WellFounded d.Linked)
    (joined : ∀ e ∈ d.edgeList, ∃ m ∈ d.nodeList, m.id = e.source) (succeeded : r.execution.status = .succeeded) :
    ∀ n ∈ r.nodes, n.status = .succeeded ↔ Active d r.execution.input n.nodeID := by
  -- by recursion along the edges: a node is decided by its predecessors
  suffices h : ∀ id, ∀ n ∈ r.nodes, n.nodeID = id → (n.status = .succeeded ↔ Active d r.execution.input id) from
    fun n hn => h n.nodeID n hn rfl
  intro id
  induction id using wf.induction with
  | _ id ih =>
    rintro n hn rfl
    obtain ⟨m, hm, hid, -⟩ := inv.node_of_row hn
    have before : ∀ e ∈ d.incoming m.id, ∃ source ∈ d.nodeList, source.id = e.source ∧ ∃ q ∈ r.nodes, q.nodeID = e.source ∧
        (q.status = .succeeded ↔ Active d r.execution.input e.source) := by
      intro e he
      obtain ⟨he, target⟩ := List.mem_filter.1 he
      obtain ⟨source, hs, source_id⟩ := joined e he
      obtain ⟨q, hq, hqid, -⟩ := inv.row_of_node hs
      have hqid := hqid.trans source_id
      exact ⟨source, hs, source_id, q, hq, hqid, ih e.source ⟨e, he, rfl, (by simpa using target : e.target = m.id).trans hid⟩ q hq hqid⟩
    constructor
    · intro hs
      rcases (inv.rows n hn).engaged trivial (Or.inr (Or.inl hs)) m hm hid with trigger | ⟨type, -, e, he, active⟩
      · exact hid ▸ .trigger hm trigger
      · obtain ⟨source, hsource, source_id, q, hq, hqid, hact⟩ := before e he
        obtain ⟨hqs, branch⟩ := (inv.activeEdge_iff hsource source_id hq hqid).1 active
        exact hid ▸ .edge hm type he hsource source_id (source_id ▸ hact.1 hqs) branch
    · intro active
      refine (inv.complete succeeded n hn).resolve_right fun skipped => ?_
      obtain ⟨type, -, none_active⟩ := (inv.rows n hn).skipped skipped m hm hid
      rw [← hid] at active
      generalize hmid : m.id = mid at active
      cases active with
      | @trigger m' hm' trigger => exact type (inv.node_eq hm hm' hmid ▸ trigger)
      | @edge m' source e hm' _ he hsource source_id active branch =>
        rw [← hmid] at he
        obtain ⟨-, -, -, q, hq, hqid, hact⟩ := before e he
        exact none_active e he
          ((inv.activeEdge_iff hsource source_id hq hqid).2 ⟨hact.2 (source_id ▸ active), branch⟩)

theorem RunInv.follows (inv : RunInv ⟨d, True, done⟩ r) (wf : WellFounded d.Linked)
    (joined : ∀ e ∈ d.edgeList, ∃ m ∈ d.nodeList, m.id = e.source) (succeeded : r.execution.status = .succeeded) :
    Follows d r where
  succeeded := fun n hn => (inv.succeeded_iff_active wf joined succeeded n hn).2
  skipped := fun n hn inactive => (inv.complete succeeded n hn).resolve_left fun hs =>
    inactive ((inv.succeeded_iff_active wf joined succeeded n hn).1 hs)
  result := fun n hn => (inv.rows n hn).result

end Rows

/-! ### Runs -/

/-- No stale claim is recovered. -/
def NoRecovery (s : State) : Action machine Request → Prop
  | .step pid _ => ∀ executionID nodeID, ¬ s.Calling pid (.sys (.recovery executionID nodeID))
  | _ => True

section Runs
variable {h : Host} {w w' : World} {s s' : State} {executionID executionID' : UUID} {r r' : Run} {d : WorkflowDefinition}

theorem follows_of_succeeded (fresh : w.Fresh) (reach : Reachable h NoRecovery w s)
    (hr : runOf s.config.world.canvas executionID = some r) (pinned : definitionOf s.config.world.canvas r.execution = some d)
    (accepted : (validateWorkflowDefinition h.uuidParse d).valid = true) (succeeded : r.execution.status = .succeeded) :
    Follows d r := by
  obtain ⟨inv, -⟩ := executions_run True fresh (fun _ s pid env o allowed calling executionID nodeID recovery =>
    absurd (recovery ▸ calling) (allowed executionID nodeID)) reach
  obtain ⟨d', pinned', run⟩ := inv.canvas.runs executionID r hr
  rw [pinned] at pinned'
  cases pinned'
  have publishable := publishable_of_valid accepted
  exact run.follows (linked_wellFounded publishable) (fun e he => (publishable.joined e he).1) succeeded

/-- Without recoveries every execution that succeeds follows its workflow, and any two on one input agree. -/
theorem succeeded_executions_follow (fresh : w.Fresh) (reach : Reachable h NoRecovery w s)
    (hr : runOf s.config.world.canvas executionID = some r) (pinned : definitionOf s.config.world.canvas r.execution = some d)
    (accepted : (validateWorkflowDefinition h.uuidParse d).valid = true) (succeeded : r.execution.status = .succeeded) :
    Follows d r ∧
      ∀ w' s' executionID' r', w'.Fresh → Reachable h NoRecovery w' s' →
        runOf s'.config.world.canvas executionID' = some r' →
        definitionOf s'.config.world.canvas r'.execution = some d → r'.execution.status = .succeeded →
        r'.execution.input = r.execution.input →
        ∀ n ∈ r.nodes, ∀ n' ∈ r'.nodes, n.nodeID = n'.nodeID → n.status = n'.status := by
  have follows := follows_of_succeeded fresh reach hr pinned accepted succeeded
  refine ⟨follows, fun w' s' executionID' r' fresh' reach' hr' pinned' succeeded' input n hn n' hn' id => ?_⟩
  exact follows.agree (follows_of_succeeded fresh' reach' hr' pinned' accepted succeeded') input.symm hn hn' id

theorem noRecovery_of_trace (reach : Reachable h anything w s)
    (trace : (s.config.trace.all fun e => !e.op.recovers) = true) : Reachable h NoRecovery w s := by
  refine reach.restrict (P := fun o : Op => o.recovers = false) (fun s a _ kept => ?_) fun e he => ?_
  · cases a with
    | step pid env =>
      intro executionID nodeID calling
      cases kept pid env _ rfl calling
    | _ => trivial
  · simpa using List.all_eq_true.1 trace e he

end Runs

theorem gateRun_follows : ∃ s r, (System.init gateWorld).run (body sampleHost) gateRun = some s ∧
    runOf s.config.world.canvas ⟨103⟩ = some r ∧ r.execution.status = .succeeded ∧ Follows sampleDefinition r := by
  obtain ⟨s, r, run, hr, pinned, succeeded, -, trace⟩ := gateRun_ends
  have reach : Reachable sampleHost anything gateWorld s := System.reach_of_run (fun _ _ _ => trivial) run
  exact ⟨s, r, run, hr, succeeded, (succeeded_executions_follow gateWorld_fresh (noRecovery_of_trace reach trace) hr pinned
    (by decide +kernel) succeeded).1⟩

/-! ### Dispatches -/

/-- Stale claims are recovered only of nodes that are not to be skipped. -/
def RecoversUnskipped (s : State) : Action machine Request → Prop
  | .step pid _ => ∀ executionID nodeID, s.Calling pid (.sys (.recovery executionID nodeID)) →
      Unskipped s.config.world executionID nodeID
  | _ => True

theorem ActiveIncoming.unskipped {w : World} {executionID : UUID} {nodeID : String}
    (active : ActiveIncoming w executionID nodeID) : Unskipped w executionID nodeID := by
  obtain ⟨r, d, hr, pinned, e, he, active⟩ := active
  rintro r' d' m hr' pinned' hm rfl ⟨-, -, inactive⟩
  rw [hr] at hr'
  cases hr'
  rw [pinned] at pinned'
  cases pinned'
  exact inactive e he active

/-- The external work of a node is created only where an active edge enters it. -/
theorem dispatched_active {h : Host} {w : World} {s : State} (fresh : w.Fresh) (reach : Reachable h RecoversUnskipped w s)
    {pid : Nat} {request : Request} {o : Op} {k : machine.Answer o → Script Outcome} (workflow : request.workflow = true)
    (calling : s.procs[pid]? = some ⟨request, .call o k, true⟩) {executionID : UUID} {nodeID : String}
    (dispatch : Dispatches o executionID nodeID) :
    ActiveIncoming s.config.world executionID nodeID ∧ Unskipped s.config.world executionID nodeID := by
  obtain ⟨inv, meets⟩ := executions_run True fresh (fun _ s pid env o allowed calling executionID nodeID recovery =>
    allowed executionID nodeID (recovery ▸ calling)) reach
  -- what a process promises of a call does not depend on what the step meets
  have granted : (executionRules True).granted pid s.config o (sampleEnv 0 ⟨0⟩) := by
    refine ⟨fun d hd hs => delivered_step fresh reach ⟨request, k, calling⟩ _ hd hs, fun _ _ _ recovery => ?_⟩
    subst recovery
    exact dispatch.elim
  have promise := (meets.may (executionRules True) (Request.promise True) inv calling _ granted).2
  rw [Request.promise, workflow] at promise
  have active := promise trivial executionID nodeID dispatch
  exact ⟨active, active.unskipped⟩

/-- The gate is closed; the process that claims the node behind it crashes before it stores that the node is skipped,
    and half a minute later the claim is recovered. -/
def recoveredRun : List (Action machine Request) :=
  [.spawn (.startExecution (sampleStart .empty))] ++ steps 0 0 (idsFrom 100 35) ++
    [.crash 0, .spawn (.advanceExecution ⟨1⟩ ⟨2⟩ ⟨103⟩)] ++ steps 1 (seconds 31) (idsFrom 500 9)

theorem recoveredRun_dispatches : ∃ s t k, (System.init gateWorld).run (body sampleHost) recoveredRun = some s ∧
    s.procs[1]? = some ⟨.advanceExecution ⟨1⟩ ⟨2⟩ ⟨103⟩, .call (.task (.create t)) k, true⟩ ∧
    Dispatches (.task (.create t)) ⟨103⟩ "work" ∧ ¬ ActiveIncoming s.config.world ⟨103⟩ "work" := by
  obtain ⟨s, t, k, r, run, calling, key, hr, pinned, output⟩ : ∃ (s : State) (t : Task) (k : _) (r : Run),
      (System.init gateWorld).run (body sampleHost) recoveredRun = some s ∧
      s.procs[1]? = some ⟨.advanceExecution ⟨1⟩ ⟨2⟩ ⟨103⟩, .call (.task (.create t)) k, true⟩ ∧
      t.idempotencyKey = workflowTaskKey ⟨103⟩ "work" ∧ runOf s.config.world.canvas ⟨103⟩ = some r ∧
      definitionOf s.config.world.canvas r.execution = some sampleDefinition ∧
      (stateOf r.nodes "gate").map (fun n => workflowConditionResult n.output) = some (.ok false) :=
    ⟨_, _, _, _, rfl, rfl, rfl, rfl, rfl, rfl⟩
  refine ⟨s, t, k, run, calling, key, ?_⟩
  rintro ⟨r', d, hr', pinned', e, he, n, hn, -, taken⟩
  rw [hr] at hr'
  cases hr'
  rw [pinned] at pinned'
  cases pinned'
  obtain rfl : e = ⟨"e2", "gate", "work", .json (.obj [("branch", .bool true)])⟩ := List.mem_singleton.1 he
  rw [hn] at output
  have result := taken rfl true rfl
  rw [Option.map_some, result] at output
  cases output

/-- The gate is open, and the node behind it is about to be dispatched. -/
def openRun : List (Action machine Request) :=
  [.spawn (.startExecution (sampleStart (.json (.obj [("go", .bool true)]))))] ++ steps 0 0 (idsFrom 100 40)

theorem openRun_active : ∃ s t k, (System.init gateWorld).run (body sampleHost) openRun = some s ∧
    s.procs[0]? = some ⟨.startExecution (sampleStart (.json (.obj [("go", .bool true)]))), .call (.task (.create t)) k,
      true⟩ ∧
    Dispatches (.task (.create t)) ⟨103⟩ "work" ∧ ActiveIncoming s.config.world ⟨103⟩ "work" := by
  obtain ⟨s, t, k, run, calling, key, trace⟩ : ∃ (s : State) (t : Task) (k : _),
      (System.init gateWorld).run (body sampleHost) openRun = some s ∧
      s.procs[0]? = some ⟨.startExecution (sampleStart (.json (.obj [("go", .bool true)]))), .call (.task (.create t)) k,
        true⟩ ∧
      t.idempotencyKey = workflowTaskKey ⟨103⟩ "work" ∧ (s.config.trace.all fun e => !e.op.recovers) = true :=
    ⟨_, _, _, rfl, rfl, rfl, rfl⟩
  have reach : Reachable sampleHost RecoversUnskipped gateWorld s := by
    refine (noRecovery_of_trace (System.reach_of_run (fun _ _ _ => trivial) run) trace).mono fun s a none => ?_
    cases a with
    | step pid env => exact fun executionID nodeID calling => absurd calling (none executionID nodeID)
    | _ => trivial
  exact ⟨s, t, k, run, calling, key, (dispatched_active gateWorld_fresh reach rfl calling key).1⟩

end Windylane
