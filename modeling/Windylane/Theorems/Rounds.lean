import Windylane.Theorems.Progress
import Windylane.Theorems.Adoption

/-! One round of AdvanceExecution while nobody else calls and nothing fails: what becomes of each row of the execution. -/

namespace Windylane

open Conc Script Prog

-- the conditions on texts are not decided here
seal trimSpace

/-! ### Work that is dispatched -/

/-- The calls by which work is dispatched. -/
def Op.dispatches : Op → Prop
  | .sys _ | .broker _ => True
  | .task (.findByIdempotencyKey _ _ _) | .task (.markDispatched _ _ _) => True
  | .task (.create t) => t.status = .pending
  | .hook (.getWebhookEndpoint _ _) | .hook (.getWebhookDelivery _ _) | .hook (.listActiveWebhookEndpointsForEvent _ _) => True
  | .hook (.createWebhookDelivery d) => d.status = .pending
  | _ => False

theorem createDeliveries_dispatches (h : Host) (eventType : WebhookEventType) (task : Task) (payload : Json) (now : Time)
    (endpoints : List WebhookEndpoint) : (createDeliveries h eventType task payload now endpoints).Calls Op.dispatches := by
  induction endpoints with
  | nil => trivial
  | cons endpoint rest ih =>
    have dropped := ih.bind fun _ => calls_ret false
    simp [createDeliveries, perform, attempt, Op.dispatches, newDelivery, ih, dropped]

theorem publishTaskEvent_dispatches (h : Host) (eventType : WebhookEventType) (task : Task) :
    (publishTaskEvent h eventType task).Calls Op.dispatches := by
  unfold publishTaskEvent
  split
  · simp [perform, attempt, Op.dispatches, createDeliveries_dispatches]
  · trivial

theorem dispatchCreated_dispatches (h : Host) (task : Task) : (dispatchCreated h task).Calls Op.dispatches := by
  simp only [dispatchCreated, perform, call_bind, ret_bind, fail_bind, calls_call, calls_fail, forall_answer, Op.dispatches,
    implies_true, true_and]
  refine fun _ => (publishTaskEvent_dispatches h _ _).bind fun _ => ?_
  simp [attempt, Op.dispatches]

theorem requestedTask_pending (input : CreateTaskInput) (fingerprint : String) (payload : RawMessage) (id : UUID) (now : Time) :
    (requestedTask input fingerprint payload id now).status = .pending := by
  unfold requestedTask
  dsimp only
  split <;> rfl

theorem createTask_dispatches (h : Host) (input : CreateTaskInput) : (createTask h input).Calls Op.dispatches := by
  unfold createTask
  split
  · trivial
  · simp only [perform, attempt, call_bind, ret_bind, calls_call, forall_answer, Op.dispatches, true_and]
    refine ⟨fun e => ?_, fun _ => trivial⟩
    split
    · trivial
    · rename_i heq
      cases heq
      simp only [calls_call, calls_fail, ret_bind, fail_bind, forall_answer, Op.dispatches, implies_true, true_and]
      intro now id
      refine ⟨requestedTask_pending _ _ _ _ _, fun e => ?_, fun _ => dispatchCreated_dispatches h _⟩
      split
      · rename_i heq
        cases heq
      · simp [Op.dispatches]
      · trivial
    · trivial

theorem dispatchWorkflowTask_dispatches (h : Host) (orgID executionID : UUID) (nodeID : String)
    (config : Option (List (String × Json))) (input : RawMessage) :
    (dispatchWorkflowTask h orgID executionID nodeID config input).Calls Op.dispatches := by
  unfold dispatchWorkflowTask
  split
  · trivial
  · exact createTask_dispatches h _

theorem dispatchWorkflowWebhook_dispatches (h : Host) (x : WorkflowExecution) (m : WorkflowNode) (input : RawMessage) :
    (dispatchWorkflowWebhook h x m input).Calls Op.dispatches := by
  unfold dispatchWorkflowWebhook
  split
  · trivial
  split
  · trivial
  · simp [perform, attempt, Op.dispatches, newDelivery]

theorem createTask_returns (h : Host) (input : CreateTaskInput) : (createTask h input).Ends StoreAnswers Returns := by
  cases payload : input.payload.unmarshal with
  | none =>
    simp only [createTask, requestFingerprint, payload, Option.map_none]
    exact ⟨_, rfl⟩
  | some value =>
    refine (createTask_accepts h (by rw [payload]; rfl)).imp ?_
    rintro r ⟨result, rfl, -⟩
    exact ⟨result, rfl⟩

theorem dispatchWorkflowTask_returns (h : Host) (orgID executionID : UUID) (nodeID : String)
    (config : Option (List (String × Json))) (input : RawMessage) :
    (dispatchWorkflowTask h orgID executionID nodeID config input).Ends StoreAnswers Returns := by
  unfold dispatchWorkflowTask
  split
  · exact ⟨_, rfl⟩
  · exact createTask_returns h _

theorem dispatchWorkflowWebhook_returns (h : Host) (x : WorkflowExecution) (m : WorkflowNode) (input : RawMessage) :
    (dispatchWorkflowWebhook h x m input).Ends StoreAnswers Returns := by
  cases parsed : parseWorkflowWebhookConfig m.config with
  | error e =>
    simp only [dispatchWorkflowWebhook, parsed]
    exact ⟨_, rfl⟩
  | ok config =>
    cases known : h.uuidParse config.endpointID with
    | none =>
      simp only [dispatchWorkflowWebhook, parsed, known]
      exact ⟨_, rfl⟩
    | some endpointID =>
      refine (dispatchWorkflowWebhook_accepts parsed (by rw [known]; rfl) x input).imp ?_
      rintro r ⟨result, rfl, -⟩
      exact ⟨result, rfl⟩

/-- The rows say the same of the work. -/
structure SameWork (t t' : Task) : Prop where
  id : t'.id = t.id
  orgID : t'.orgID = t.orgID
  idempotencyKey : t'.idempotencyKey = t.idempotencyKey
  status : t'.status = t.status
  attempts : t'.attempts = t.attempts
  deletedAt : t'.deletedAt = t.deletedAt

theorem SameWork.refl (t : Task) : SameWork t t := ⟨rfl, rfl, rfl, rfl, rfl, rfl⟩

theorem SameWork.trans {t t' t'' : Task} (h : SameWork t t') (h' : SameWork t' t'') : SameWork t t'' :=
  ⟨h'.id.trans h.id, h'.orgID.trans h.orgID, h'.idempotencyKey.trans h.idempotencyKey, h'.status.trans h.status,
    h'.attempts.trans h.attempts, h'.deletedAt.trans h.deletedAt⟩

/-- Work was added that has not begun; the work that was there is as it was. -/
structure WorkAdded (w w' : World) : Prop where
  tasks : ∃ f added, w'.tasks = w.tasks.map f ++ added ∧ (∀ t, SameWork t (f t)) ∧ ∀ t ∈ added, t.status = .pending
  deliveries : ∃ added, w'.hooks.deliveries = w.hooks.deliveries ++ added ∧ ∀ v ∈ added, v.status = .pending

theorem WorkAdded.of_eq {w w' : World} (tasks : w'.tasks = w.tasks) (hooks : w'.hooks = w.hooks) : WorkAdded w w' :=
  ⟨⟨id, [], by simp [tasks], .refl, by simp⟩, ⟨[], by simp [hooks], by simp⟩⟩

theorem WorkAdded.trans {w w' w'' : World} (h : WorkAdded w w') (h' : WorkAdded w' w'') : WorkAdded w w'' := by
  obtain ⟨⟨f, added, tasks, same, begins⟩, added', deliveries, begins'⟩ := h
  obtain ⟨⟨g, more, tasks', same', begin'⟩, more', deliveries', begin''⟩ := h'
  refine ⟨⟨g ∘ f, added.map g ++ more, ?_, fun t => (same t).trans (same' _), fun t ht => ?_⟩, added' ++ more', ?_, ?_⟩
  · rw [tasks', tasks, List.map_append, List.map_map, List.append_assoc]
  · rcases List.mem_append.1 ht with ht | ht
    · obtain ⟨q, hq, rfl⟩ := List.mem_map.1 ht
      exact (same' q).status.trans (begins q hq)
    · exact begin' t ht
  · rw [deliveries', deliveries, List.append_assoc]
  · exact fun v hv => (List.mem_append.1 hv).elim (begins' v) (begin'' v)

theorem Op.dispatches.adds {o : Op} (dispatches : o.dispatches) {env : Env} (calm : env.fault = none) (w : World) :
    WorkAdded w (o.exec env w).2 ∧ (o.exec env w).2.canvas = w.canvas := by
  rw [Op.exec_calm calm]
  cases o with
  | sys o => exact ⟨.of_eq rfl rfl, rfl⟩
  | broker o => exact ⟨.of_eq rfl rfl, rfl⟩
  | worker | canvas => cases dispatches
  | task o =>
    cases o with
    | findByIdempotencyKey => exact ⟨.of_eq rfl rfl, rfl⟩
    | markDispatched orgID taskID now =>
      refine ⟨⟨?_, [], by simp [Op.run], by simp⟩, rfl⟩
      simp only [Op.run, TaskOp.run, Tasks.markDispatched, Tasks.exec]
      split
      · refine ⟨_, [], (List.append_nil _).symm, fun t => ?_, by simp⟩
        dsimp only
        split
        · exact ⟨rfl, rfl, rfl, rfl, rfl, rfl⟩
        · exact .refl t
      · exact ⟨id, [], by simp, .refl, by simp⟩
    | create t =>
      refine ⟨⟨?_, [], by simp [Op.run], by simp⟩, rfl⟩
      simp only [Op.run, TaskOp.run, Tasks.create]
      split
      · exact ⟨id, [], by simp, .refl, by simp⟩
      · refine ⟨id, [Tasks.inserted t], by simp, .refl, fun q hq => ?_⟩
        cases List.mem_singleton.1 hq
        exact dispatches
    | _ => cases dispatches
  | hook o =>
    cases o with
    | getWebhookEndpoint | getWebhookDelivery | listActiveWebhookEndpointsForEvent => exact ⟨.of_eq rfl rfl, rfl⟩
    | createWebhookDelivery v =>
      refine ⟨⟨⟨id, [], by simp [Op.run], .refl, by simp⟩, ?_⟩, rfl⟩
      simp only [Op.run, HookOp.run, Webhooks.createWebhookDelivery]
      split
      · exact ⟨[], by simp, by simp⟩
      split
      · exact ⟨[], by simp, by simp⟩
      split
      · exact ⟨[], by simp, by simp⟩
      · refine ⟨[v], rfl, fun q hq => ?_⟩
        cases List.mem_singleton.1 hq
        exact dispatches
    | _ => cases dispatches

section Rules
variable {R : State → Prop} {pid : Nat} {c : Config machine} {w : World} {h : Host} {x : WorkflowExecution} {m : WorkflowNode}

/-- A program that dispatches work changes nothing else. -/
theorem alone_dispatches {α : Type} {p : Script α} (calls : p.Calls Op.dispatches) (ends : p.Ends StoreAnswers Returns)
    (hc : c.world = w) :
    RunsAlone R pid (fun r c' => Returns r ∧ WorkAdded w c'.world ∧ c'.world.canvas = w.canvas) p c := by
  subst hc
  refine solo_calls (M := machine) (I := fun c' => WorkAdded c.world c'.world ∧ c'.world.canvas = c.world.canvas) calls ends
    (fun s o env _ _ _ calm _ => ?_) (fun s o env _ _ dispatches calm => ?_) ⟨.of_eq rfl rfl, rfl⟩
  · exact ⟨env, s.config.world, by simp [show env.fault = none from calm], rfl⟩
  · rintro ⟨added, same⟩
    obtain ⟨more, kept⟩ := dispatches.adds calm s.config.world
    exact ⟨added.trans more, kept.trans same⟩

/-- The node waits for something outside once it was executed. -/
def WorkflowNodeType.outside : WorkflowNodeType → Bool
  | .task | .webhook | .delay => true
  | _ => false

/-- The claimed row was executed, or the execution failed. -/
def Performed (x : WorkflowExecution) (m : WorkflowNode) (n : WorkflowNodeExecution) (w : World) (r : Except Err WorkflowExecution)
    (c : Config machine) : Prop :=
  Over x.id c ∨ r = .ok x ∧ WorkAdded w c.world ∧ ∃ node, SameNode n node ∧
    node.status = (if m.type.outside then .queued else .succeeded) ∧
    c.world.canvas = (Canvas.updateWorkflowNodeExecution node .running w.canvas).2

theorem failClaimedNode_alone {w₀ : World} (fresh : w₀.Fresh) (lives : Lives x c.world) (n : WorkflowNodeExecution)
    (code message : String) :
    RunsAlone (Reachable h anything w₀) pid (fun _ c => Over x.id c) (failClaimedNode x n code message) c := by
  unfold failClaimedNode
  refine alone_sys rfl fun now c1 hc1 => ?_
  refine Solo.bind (updateNode_alone _ _ hc1) ?_ ?_
  · rintro _ c2 ⟨-, hc2⟩
    exact failExecution_alone fresh (by rw [hc2]; exact lives) _ _
  · rintro e c2 ⟨heq, -⟩
    cases heq

theorem executeClaimedNode_alone {w₀ : World} (fresh : w₀.Fresh) (lives : Lives x w) (n : WorkflowNodeExecution)
    (hc : c.world = w) :
    RunsAlone (Reachable h anything w₀) pid (Performed x m n w) (executeClaimedNode h x m n) c := by
  unfold executeClaimedNode
  refine alone_sys hc fun now c1 hc1 => ?_
  have fails : ∀ {c' : Config machine}, c'.world.canvas = w.canvas → ∀ node code message,
      RunsAlone (Reachable h anything w₀) pid (Performed x m n w) (failClaimedNode x node code message) c' := by
    intro c' hc' node code message
    have lives : Lives x c'.world := by
      unfold Lives
      rw [hc']
      exact lives
    exact (failClaimedNode_alone fresh lives node code message).imp fun _ _ _ => Or.inl
  have settles : ∀ {c' : Config machine}, WorkAdded w c'.world → c'.world.canvas = w.canvas → ∀ node, SameNode n node →
      node.status = (if m.type.outside then .queued else .succeeded) →
      RunsAlone (Reachable h anything w₀) pid (Performed x m n w)
        (updateNode node .running >>= fun _ => pure x) c' := by
    intro c' added hc' node same status
    refine Solo.bind (updateNode_alone _ _ rfl) ?_ ?_
    · rintro _ c2 ⟨-, hc2⟩
      refine solo_ret (Or.inr ⟨rfl, added.trans (.of_eq (by rw [hc2]) (by rw [hc2])), node, same, status, ?_⟩)
      rw [hc2, ← hc']
    · rintro e c2 ⟨heq, -⟩
      cases heq
  have unchanged : WorkAdded w c1.world := .of_eq (by rw [hc1]) (by rw [hc1])
  cases type : m.type with
  | trigger =>
    refine settles unchanged (by rw [hc1]) _ ?_ ?_
    · exact ⟨rfl, rfl, rfl, rfl, rfl, rfl⟩
    · simp [type, WorkflowNodeType.outside]
  | condition =>
    dsimp only
    split
    · exact fails (by rw [hc1]) _ _ _
    split
    · exact fails (by rw [hc1]) _ _ _
    · refine settles unchanged (by rw [hc1]) _ ?_ ?_
      · exact ⟨rfl, rfl, rfl, rfl, rfl, rfl⟩
      · simp [type, WorkflowNodeType.outside]
  | delay =>
    dsimp only
    split
    · exact fails (by rw [hc1]) _ _ _
    · refine settles unchanged (by rw [hc1]) _ ?_ ?_
      · exact ⟨rfl, rfl, rfl, rfl, rfl, rfl⟩
      · simp [type, WorkflowNodeType.outside]
  | task =>
    refine Solo.bind (alone_dispatches (dispatchWorkflowTask_dispatches h _ _ _ _ _) (dispatchWorkflowTask_returns h _ _ _ _ _) hc1)
      ?_ ?_
    · rintro result c2 ⟨-, added, same⟩
      dsimp only
      split
      · exact fails same _ _ _
      · refine settles added same _ ?_ ?_
        · exact ⟨rfl, rfl, rfl, rfl, rfl, rfl⟩
        · simp [type, WorkflowNodeType.outside]
    · rintro e c2 ⟨⟨_, heq⟩, -⟩
      cases heq
  | webhook =>
    refine Solo.bind (alone_dispatches (dispatchWorkflowWebhook_dispatches h _ _ _) (dispatchWorkflowWebhook_returns h _ _ _) hc1)
      ?_ ?_
    · rintro result c2 ⟨-, added, same⟩
      dsimp only
      split
      · exact fails same _ _ _
      · refine settles added same _ ?_ ?_
        · exact ⟨rfl, rfl, rfl, rfl, rfl, rfl⟩
        · simp [type, WorkflowNodeType.outside]
    · rintro e c2 ⟨⟨_, heq⟩, -⟩
      cases heq
  | other _ => exact fails (by rw [hc1]) _ _ _

end Rules
end Windylane
