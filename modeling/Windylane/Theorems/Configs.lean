import Windylane.Theorems.Guarantees
import Windylane.Theorems.Idempotency
import Windylane.Theorems.Provenance
import Windylane.Theorems.Semantics
import Windylane.Theorems.Validation

/-! Publishing and running parse the same configurations. What the publish check accepts, the executions can use: no node
    is refused for its configuration, a condition and the readiness of a node are decided, and the dispatchers do not
    refuse what they are given. -/

namespace Windylane

open Conc Script Prog

-- the conditions on texts are not decided here
seal trimSpace

/-! ### Readiness -/

section Readiness
variable {d : WorkflowDefinition} {nodes : List WorkflowNodeExecution}

/-- The loop over the incoming edges decides, when it can read the branches and the results of the conditions. -/
theorem readinessLoop_decides {edges : List WorkflowEdge} {count : Nat}
    (branches : ∀ e ∈ edges, (d.node? e.source).map (·.type) = some .condition → ∃ b, parseWorkflowBranch e.condition = .ok b)
    (results : ∀ e ∈ edges, (d.node? e.source).map (·.type) = some .condition → ∀ n, stateOf nodes e.source = some n →
      n.status = .succeeded → ∃ b, workflowConditionResult n.output = .ok b) :
    ∃ ready, readinessLoop d nodes edges count = .ok ready := by
  induction edges generalizing count with
  | nil => exact ⟨_, rfl⟩
  | cons edge rest ih =>
    have decided : ∀ count, ∃ ready, readinessLoop d nodes rest count = .ok ready := fun count =>
      ih (fun e he => branches e (List.mem_cons_of_mem _ he)) fun e he => results e (List.mem_cons_of_mem _ he)
    unfold readinessLoop
    cases source : stateOf nodes edge.source with
    | none => exact ⟨_, rfl⟩
    | some n =>
      simp only
      split
      · exact ⟨_, rfl⟩
      split
      · exact ⟨_, rfl⟩
      split
      · exact decided count
      rename_i ended unfailed unskipped
      split
      · rename_i condition
        have succeeded : n.status = .succeeded := by
          cases status : n.status <;> simp_all [WorkflowNodeExecutionStatus.terminal]
        obtain ⟨branch, parsed⟩ := branches edge List.mem_cons_self condition
        obtain ⟨result, resulted⟩ := results edge List.mem_cons_self condition n source succeeded
        rw [parsed]
        cases branch with
        | none => exact decided (count + 1)
        | some branch =>
          simp only [resulted]
          split
          · exact decided count
          · exact decided (count + 1)
      · exact decided (count + 1)

/-- Readiness is decided for every node of an execution of a definition that was accepted. -/
theorem RunInv.readiness_decides {g : Rules} {r : Run} {uuidParse : String → Option UUID} (inv : RunInv g r)
    (accepted : Publishable uuidParse BranchShape g.definition) (m : WorkflowNode) :
    ∃ ready, workflowNodeReadiness g.definition r.nodes m = .ok ready := by
  unfold workflowNodeReadiness
  split
  · exact ⟨_, rfl⟩
  split
  · exact ⟨_, rfl⟩
  have source : ∀ e : WorkflowEdge, (g.definition.node? e.source).map (·.type) = some .condition →
      ∃ n ∈ g.definition.nodeList, n.id = e.source ∧ n.type = .condition := by
    intro e condition
    obtain ⟨n, found, type⟩ := Option.map_eq_some_iff.1 condition
    obtain ⟨hn, id⟩ := node?_eq_some found
    exact ⟨n, hn, id, type⟩
  refine readinessLoop_decides (fun e he condition => ?_) fun e he condition n found succeeded => ?_
  · have he := (List.mem_filter.1 he).1
    exact (parseWorkflowBranch_ok (accepted.conditions e he)).2 (accepted.branches e he (source e condition))
  · obtain ⟨hn, id⟩ := (stateOf_eq_some inv.nodeIDs).1 found
    obtain ⟨m', hm, named, type⟩ := source e condition
    obtain ⟨config, result, -, -, output⟩ := (inv.rows n hn).result succeeded m' hm (named.trans id.symm) type
    exact ⟨result, by rw [output, workflowConditionResult_result]⟩

end Readiness

/-! ### Dispatching -/

/-- The errors of a request that is refused for what it asks. -/
def Err.refuses : Err → Bool
  | .invalidInput | .invalidPayload => true
  | _ => false

/-- What the stores answer in some state, where a fault is not one of these errors. -/
def StoreAnswers (o : Op) (r : machine.Answer o) : Prop :=
  ∃ env w, (∀ e, env.fault = some (.lost e) ∨ env.fault = some (.unacked e) → e.refuses = false) ∧ r = (o.exec env w).1

theorem StoreAnswers.sys {o : Op} {r : machine.Answer o} (answer : StoreAnswers o r) : SysAnswers o r := by
  obtain ⟨env, w, -, rfl⟩ := answer
  exact sysAnswers env o w

theorem stores_sys {α : Type} {o : SysOp} {f : o.Resp → Script α} {φ : Except Err α → Prop}
    (rest : ∀ a, (f a).Ends StoreAnswers φ) : (Script.sys o >>= f).Ends StoreAnswers φ := by
  rintro _ answer
  obtain ⟨a, rfl⟩ := answer.sys
  exact rest a

/-- An operation that answers such an error by itself is not among those of the dispatchers. -/
theorem StoreAnswers.error {o : Op} {e : Err} (answer : StoreAnswers o (.error e))
    (fine : ∀ env w, (o.run env w).1 = .error e → e.refuses = false) : e.refuses = false := by
  obtain ⟨env, w, faults, answered⟩ := answer
  rcases o.exec_cases env w with ⟨e', fault, ran⟩ | ⟨e', fault, ran⟩ | ran
  · rw [ran] at answered
    cases answered
    exact faults e (Or.inl fault)
  · rw [ran] at answered
    cases answered
    exact faults e (Or.inr fault)
  · rw [ran] at answered
    exact fine env w answered.symm

/-- A task dispatch is answered, and not with an error that refuses it. -/
def Accepts (r : Except Err TaskResult) : Prop := ∃ result, r = .ok result ∧ ∀ e, result.err = some e → e.refuses = false

theorem accepts_ok {task : Option Task} {reused : Bool} : Accepts (.ok ⟨task, reused, none⟩) :=
  ⟨_, rfl, fun _ he => by cases he⟩

theorem accepts_error {task : Option Task} {reused : Bool} {e : Err} (fine : e.refuses = false) :
    Accepts (.ok ⟨task, reused, some e⟩) := by
  refine ⟨_, rfl, fun e' he => ?_⟩
  cases he
  exact fine

theorem reuseTask_accepts (existing : Task) (fingerprint : String) : Accepts (.ok (reuseTask existing fingerprint)) := by
  unfold reuseTask
  split
  · exact accepts_error rfl
  · exact accepts_ok

theorem markDispatched_accepts (task : Task) (now : Time) :
    (do
      match ← tryTask (.markDispatched task.orgID task.id now) with
      | .error e => pure ⟨some task, false, some e⟩
      | .ok _ => pure ⟨some task, false, none⟩ : Script TaskResult).Ends StoreAnswers Accepts := by
  intro marked answer
  cases marked with
  | ok _ => exact accepts_ok
  | error e =>
    refine accepts_error (answer.error fun env w ran => ?_)
    simp only [Op.run, TaskOp.run, Tasks.markDispatched, Tasks.exec] at ran
    split at ran <;> cases ran
    rfl

theorem dispatchCreated_accepts (h : Host) (task : Task) : (dispatchCreated h task).Ends StoreAnswers Accepts := by
  refine stores_sys fun _ => ?_
  refine ((publishTaskEvent_ends h _ task).answered fun _ _ => StoreAnswers.sys).bind (fun _ _ => ?_) ?_
  · refine stores_sys fun now => ?_
    dsimp only
    split
    · refine stores_sys fun _ sent _ => ?_
      cases sent with
      | error e => exact accepts_error rfl
      | ok _ => exact markDispatched_accepts task now
    · intro sent _
      cases sent with
      | error e => exact accepts_error rfl
      | ok _ => exact markDispatched_accepts task now
  · rintro e ⟨_, he⟩
    cases he

theorem create_refuses {t : Task} {rows : List Task} {e : Err} (ran : (Tasks.create t rows).1 = .error e) :
    e.refuses = false := by
  unfold Tasks.create at ran
  split at ran <;> cases ran
  rfl

theorem createTask_accepts (h : Host) {input : CreateTaskInput} (payload : input.payload.unmarshal.isSome = true) :
    (createTask h input).Ends StoreAnswers Accepts := by
  obtain ⟨value, unmarshalled⟩ := Option.isSome_iff_exists.1 payload
  have found : ∀ {e : Err}, StoreAnswers (.task (.findByIdempotencyKey input.orgID input.queue input.idempotencyKey)) (.error e) →
      e.refuses = false := fun answer => answer.error fun env w ran => by
    simp only [Op.run, TaskOp.run, Tasks.findByIdempotencyKey] at ran
    split at ran <;> cases ran
    rfl
  simp only [createTask, requestFingerprint, unmarshalled, Option.map_some]
  intro r answer
  cases r with
  | ok existing => exact reuseTask_accepts existing _
  | error e =>
    have fine := found answer
    by_cases missing : e = .taskNotFound
    · subst missing
      refine stores_sys fun now => stores_sys fun id => ?_
      intro r answer
      cases r with
      | ok _ => exact dispatchCreated_accepts h _
      | error e =>
        have fine : e.refuses = false := answer.error fun env w ran => create_refuses ran
        by_cases duplicate : e = .duplicateIdempotencyKey
        · subst duplicate
          intro r answer
          cases r with
          | ok existing => exact reuseTask_accepts existing _
          | error e => exact accepts_error rfl
        · cases e <;> first | exact (duplicate rfl).elim | exact accepts_error fine
    · cases e <;> first | exact (missing rfl).elim | exact accepts_error fine

/-- What is given to a task is a JSON value, whether its configuration, the input or neither has one. -/
theorem payload_unmarshals {payload input : RawMessage} (own : Sound payload) (given : Sound input) :
    (if (if payload.isEmpty then input else payload).isEmpty then RawMessage.json (.obj [])
      else if payload.isEmpty then input else payload).unmarshal.isSome = true := by
  have json : ∀ m : RawMessage, Sound m → m.isEmpty = false → m.unmarshal.isSome = true := by
    rintro (_ | _ | _) sound full
    · cases full
    · rfl
    · rcases sound with h | h <;> cases h
  split
  · split
    · rfl
    · exact json _ given (Bool.eq_false_of_not_eq_true ‹_›)
  · exact json _ own (Bool.eq_false_of_not_eq_true ‹_›)

theorem dispatchWorkflowTask_accepts (h : Host) (orgID executionID : UUID) (nodeID : String) {m : WorkflowNode}
    {config : WorkflowTaskConfig} (parsed : parseWorkflowTaskConfig m.config = .ok config) {input : RawMessage}
    (given : Sound input) :
    (dispatchWorkflowTask h orgID executionID nodeID m.config input).Ends StoreAnswers Accepts := by
  unfold dispatchWorkflowTask
  rw [parsed]
  exact createTask_accepts h (payload_unmarshals (parseWorkflowTaskConfig_payload parsed) given)

/-- A webhook dispatch is answered, and not with an error that refuses it. -/
def AcceptsDelivery (r : Except Err DeliveryResult) : Prop :=
  ∃ result, r = .ok result ∧ ∀ e, result = .error e → e.refuses = false

theorem dispatchWorkflowWebhook_accepts {h : Host} {m : WorkflowNode} {config : WorkflowWebhookConfig}
    (parsed : parseWorkflowWebhookConfig m.config = .ok config) (endpoint : (h.uuidParse config.endpointID).isSome)
    (x : WorkflowExecution) (input : RawMessage) :
    (dispatchWorkflowWebhook h x m input).Ends StoreAnswers AcceptsDelivery := by
  have refused : ∀ {e : Err}, e.refuses = false → AcceptsDelivery (.ok (.error e)) := fun fine =>
    ⟨_, rfl, fun e' he => by cases he; exact fine⟩
  have delivered : ∀ {delivery : WebhookDelivery}, AcceptsDelivery (.ok (.ok delivery)) := ⟨_, rfl, fun _ he => by cases he⟩
  obtain ⟨endpointID, known⟩ := Option.isSome_iff_exists.1 endpoint
  simp only [dispatchWorkflowWebhook, parsed, known]
  intro r answer
  cases r with
  | error e =>
    refine refused (answer.error fun env w ran => ?_)
    simp only [Op.run, HookOp.run, Webhooks.getWebhookEndpoint] at ran
    split at ran <;> cases ran
    rfl
  | ok found =>
    simp only [Bind.bind, Prog.bind]
    split
    · exact refused rfl
    · intro r answer
      cases r with
      | ok existing => exact delivered
      | error e =>
        refine stores_sys fun now => stores_sys fun eventID => ?_
        intro r answer
        cases r with
        | ok _ => exact stores_sys fun _ => delivered
        | error e =>
          intro r answer
          cases r with
          | ok existing => exact delivered
          | error e' => exact refused rfl

/-! ### Claimed nodes -/

/-- A node or an execution is failed for the configuration of a node. -/
def Op.blamesConfig : Op → Prop
  | .canvas (.updateWorkflowNodeExecution node _) => node.status = .failed ∧ node.errorCode = "invalid_node_config"
  | .canvas (.finalizeWorkflowExecution x _ _) => x.errorCode = "invalid_node_config"
  | _ => False

section Claimed

abbrev Unblamed {α : Type} (p : Script α) : Prop := p.Calls fun o : Op => ¬ o.blamesConfig

theorem unblamed_of_within {o : Op} (within : o.within .offRuns) : ¬ o.blamesConfig := by
  unfold Op.blamesConfig
  split
  · exact within.elim
  · exact within.elim
  · exact id

theorem recordCancelled_unblamed (nodes : List WorkflowNodeExecution) : Unblamed (recordCancelled nodes) := by
  induction nodes with
  | nil => trivial
  | cons node rest ih =>
    unfold recordCancelled
    split
    · exact Calls.bind (by simp [perform, Op.blamesConfig]) fun _ => ih
    · exact ih

theorem updateNode_unblamed {node : WorkflowNodeExecution} {expected : WorkflowNodeExecutionStatus}
    (fine : node.status = .failed → node.errorCode ≠ "invalid_node_config") : Unblamed (updateNode node expected) := by
  refine ⟨fun ⟨failed, code⟩ => fine failed code, fun r => ?_⟩
  cases r with
  | error e => trivial
  | ok updated =>
    cases updated with
    | false => trivial
    | true =>
      simp only [Bind.bind, Prog.bind, if_true]
      split <;> simp [perform, Op.blamesConfig, Prog.bind]

theorem failClaimedNode_unblamed {execution : WorkflowExecution} {node : WorkflowNodeExecution} {code message : String}
    (fine : code ≠ "invalid_node_config") : Unblamed (failClaimedNode execution node code message) := by
  refine Calls.bind (by simp [perform, Op.blamesConfig]) fun now => ?_
  refine Calls.bind (updateNode_unblamed fun _ => fine) fun _ => ?_
  refine Calls.bind (by simp [perform, Op.blamesConfig]) fun now => ?_
  refine Calls.bind (by simp [perform, Op.blamesConfig, fine]) fun updated => ?_
  cases updated with
  | false => trivial
  | true =>
    simp only [if_true]
    refine Calls.bind (by simp [perform, Op.blamesConfig]) fun _ => ?_
    refine Calls.bind (by simp [attempt, Op.blamesConfig]) fun answer => ?_
    split
    · exact Calls.bind (recordCancelled_unblamed _) fun _ => trivial
    · trivial

/-- A claimed node with a configuration that was accepted is not failed for it. -/
theorem executeClaimedNode_unblamed {h : Host} {m : WorkflowNode} (accepted : ConfigAccepted h.uuidParse m)
    (valid : m.type.valid = true) (x : WorkflowExecution) (node : WorkflowNodeExecution) :
    Unblamed (executeClaimedNode h x m node) := by
  have settles : ∀ {node : WorkflowNodeExecution}, node.status ≠ .failed →
      Unblamed (do let _ ← updateNode node .running; pure x) := fun other =>
    Calls.bind (updateNode_unblamed fun failed => (other failed).elim) fun _ => trivial
  unfold executeClaimedNode
  refine Calls.bind (by simp [perform, Op.blamesConfig]) fun now => ?_
  simp only
  unfold ConfigAccepted at accepted
  cases type : m.type with
  | trigger => exact settles (by simp)
  | condition =>
    rw [type] at accepted
    obtain ⟨config, parsed⟩ := accepted
    simp only [parsed]
    split
    · exact failClaimedNode_unblamed (by decide)
    · exact settles (by simp)
  | delay =>
    rw [type] at accepted
    obtain ⟨config, parsed⟩ := accepted
    simp only [parsed]
    exact settles (by simp)
  | task =>
    simp only
    refine Calls.bind ?_ fun result => ?_
    · exact (dispatchWorkflowTask_calls (f := .offRuns) (fun _ _ => trivial) (fun _ => trivial) h _ _ _ _ _
        fun _ _ _ => trivial).mono fun _ => unblamed_of_within
    · split
      · exact failClaimedNode_unblamed (by decide)
      · exact settles (by simp)
  | webhook =>
    simp only
    refine Calls.bind ?_ fun result => ?_
    · exact (dispatchWorkflowWebhook_calls (f := .offRuns) h _ _ _ fun _ _ => trivial).mono fun _ => unblamed_of_within
    · split
      · exact failClaimedNode_unblamed (by decide)
      · exact settles (by simp)
  | other text =>
    rw [type] at valid
    cases valid

end Claimed

/-! ### What was published -/

end Windylane
