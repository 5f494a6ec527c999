import Windylane.Theorems.Advance

/-! Every request keeps to the discipline of executions, so in every state that is reached, after any crashes and
    any faults, the workflow tables hold executions as their invariant says. -/

namespace Windylane

open Conc Script Prog Discipline

-- the conditions on texts are not decided here
seal trimSpace

section Starting
variable {strict : Prop} {pid : Nat} {c : Config machine}

/-- A version that is stored stays stored. -/
theorem versions_last (v : WorkflowVersion) :
    (executionRules strict).Lasting pid fun c => v ∈ c.world.canvas.versions := by
  intro actor c o env _ may _ h
  rw [Config.after_world]
  exact (may env).versions.subset h

/-- A row for each node, untouched. -/
structure NewRows (nodeList : List WorkflowNode) (nodes : List WorkflowNodeExecution) : Prop where
  keys : nodes.map (fun n => (n.nodeID, n.nodeType)) = nodeList.map (fun m => (m.id, m.type))
  untouched : ∀ n ∈ nodes, n.status = .pending ∧ Unlinked n ∧ n.output = .empty

theorem newNodeExecutions_wp {K : Config machine → Prop} (hK : (executionRules strict).Lasting pid K) (hc : K c)
    (inv : ServiceInv strict c) (orgID executionID : UUID) (now : Time) (nodeList : List WorkflowNode) :
    wp (executionTerms strict pid) (newNodeExecutions orgID executionID now nodeList)
      (fun r c' => K c' ∧ ∀ nodes, r = .ok nodes → NewRows nodeList nodes) c := by
  induction nodeList generalizing c with
  | nil =>
    refine fun _ hr _ => ⟨hK.stable hr hc, ?_⟩
    rintro _ ⟨⟩
    exact ⟨rfl, fun n hn => by cases hn⟩
  | cons m rest ih =>
    refine wp_tick hK hc fun id c' hi hc => ?_
    refine wp_seq lawful hi (ih hc hi) (fun nodes c' _ h => ?_) fun _ _ _ h => ⟨h.1, fun _ he => by cases he⟩
    refine fun _ hr _ => ⟨hK.stable hr h.1, ?_⟩
    rintro _ ⟨⟩
    have new := h.2 nodes rfl
    refine ⟨by simp [new.keys], List.forall_mem_cons.2 ⟨⟨rfl, ⟨rfl, rfl, rfl⟩, rfl⟩, new.untouched⟩⟩

theorem createWorkflowExecution_wp {x : WorkflowExecution} {nodes : List WorkflowNodeExecution} {v : WorkflowVersion}
    (pending : x.status = .pending) (input : Sound x.input) (hv : x.workflowVersionID = v.id) (new : NewRows v.definition.nodeList nodes)
    (h : v ∈ c.world.canvas.versions) :
    wp (executionTerms strict pid) (createWorkflowExecution x nodes) (fun _ _ => True) c := by
  have hK : (executionRules strict).Lasting pid fun c => v ∈ c.world.canvas.versions := versions_last v
  have reuse : ∀ {c' : Config machine} (existing : WorkflowExecution),
      wp (executionTerms strict pid) (reuseExecution existing x.requestFingerprint) (fun _ _ => True) c' := by
    intro c' existing
    unfold reuseExecution
    split <;> exact fun _ _ _ => trivial
  refine wp_attempt hK h (fun _ _ _ => allowed_read rfl) fun c' env hi h _ hi' h' => ?_
  split
  · exact reuse _
  · refine wp_perform hK h' (fun c' hi h => ?_) (fun _ _ _ _ => trivial) fun c' env inserted hi h _ hi' h' _ => ?_
    · refine allowed_canvas (insertWorkflowExecution_step ?_ pending new.keys new.untouched input)
      unfold definitionOf
      rw [hv, Table.find?_key hi.canvas.versions h]
      rfl
    · simp only
      split
      · exact fun _ _ _ => trivial
      · exact wp_perform hK h' (fun _ _ _ => allowed_read rfl) (fun _ _ _ _ => trivial)
          fun _ _ existing _ _ _ _ _ _ => reuse existing
  · exact fun _ _ _ => trivial

theorem versionsOf_sub {orgID workflowID : UUID} {s : Canvas.Store} {v : WorkflowVersion}
    (h : v ∈ Canvas.versionsOf orgID workflowID s) : v ∈ s.versions := (List.mem_filter.1 h).1

/-- A version that is answered is stored. -/
theorem version_stored {env : Env} {orgID workflowID : UUID} {v : WorkflowVersion} :
    (∀ n, (Op.exec env (.canvas (.getWorkflowVersion orgID workflowID n)) c.world).1 = .ok v →
      v ∈ c.world.canvas.versions) ∧
    ((Op.exec env (.canvas (.getLatestWorkflowVersion orgID workflowID)) c.world).1 = .ok v →
      v ∈ c.world.canvas.versions) := by
  constructor
  · intro n ok
    rw [Op.exec_ok ok] at ok
    simp only [Op.run, CanvasOp.run, Canvas.getWorkflowVersion] at ok
    split at ok
    · rename_i found
      cases ok
      exact versionsOf_sub (List.mem_of_find?_eq_some found)
    · cases ok
  · intro ok
    rw [Op.exec_ok ok] at ok
    simp only [Op.run, CanvasOp.run, Canvas.getLatestWorkflowVersion] at ok
    split at ok
    · rename_i rest first
      cases ok
      have : v ∈ Table.firstBy (fun a b => decide (b.version ≤ a.version)) 1
          (Canvas.versionsOf orgID workflowID c.world.canvas) := by
        rw [first]
        exact List.mem_cons_self
      exact versionsOf_sub (Table.mem_of_mem_firstBy this)
    · cases ok

theorem selectVersion_wp (orgID workflowID : UUID) (requested : Option Int) :
    wp (executionTerms strict pid) (selectVersion orgID workflowID requested)
      (fun r c' => ∀ v, r = .ok v → v ∈ c'.world.canvas.versions) c := by
  have publish : ∀ {c' : Config machine} (v : WorkflowVersion), v ∈ c'.world.canvas.versions →
      wp (executionTerms strict pid) (if v.status ≠ .published then Script.fail .workflowVersionNotFound else pure v)
        (fun r c' => ∀ v, r = .ok v → v ∈ c'.world.canvas.versions) c' := by
    intro c' v hv
    split
    · exact fun _ _ _ _ he => by cases he
    · rintro _ hr - _ ⟨⟩
      exact (versions_last v).stable hr hv
  unfold selectVersion
  split
  · rename_i n
    simp only
    split
    · exact fun _ _ _ _ he => by cases he
    · refine wp_perform (lasting_const True) trivial (fun _ _ _ => allowed_read rfl) (fun _ _ _ _ _ he => by cases he) ?_
      intro c' env v hi _ _ hi' _ ok
      refine publish v ?_
      have kept : (Op.exec env (.canvas (.getWorkflowVersion orgID workflowID n)) c'.world).2.canvas = c'.world.canvas :=
        Op.exec_frame (·.canvas) rfl
      rw [Config.after_world, kept]
      exact version_stored.1 n ok
  · refine wp_perform (lasting_const True) trivial (fun _ _ _ => allowed_read rfl) (fun _ _ _ _ _ he => by cases he) ?_
    intro c' env v hi _ _ hi' _ ok
    refine publish v ?_
    have kept : (Op.exec env (.canvas (.getLatestWorkflowVersion orgID workflowID)) c'.world).2.canvas = c'.world.canvas :=
      Op.exec_frame (·.canvas) rfl
    rw [Config.after_world, kept]
    exact version_stored.2 ok

theorem normalized_sound {input normalized : RawMessage} (h : normalizeWorkflowExecutionInput input = some normalized) :
    Sound normalized := by
  cases input with
  | empty =>
    cases h
    exact Or.inl rfl
  | json value =>
    cases h
    exact Or.inr rfl
  | malformed first => cases h

theorem admitExecution_wp (host : Host) (input : StartWorkflowExecutionInput) :
    wp (executionTerms strict pid) (admitExecution host input) (fun _ _ => True) c := by
  unfold admitExecution
  simp only
  split
  · exact fun _ _ _ => trivial
  · refine wp_perform (lasting_const True) trivial (fun _ _ _ => allowed_read rfl) (fun _ _ _ _ => trivial) ?_
    intro c' env workflow hi _ _ hi' _ _
    split
    · exact fun _ _ _ => trivial
    · refine wp_seq lawful hi' (selectVersion_wp _ _ _) (fun v c' hi hv => ?_) fun _ _ _ _ => trivial
      have hv := hv v rfl
      have hK : (executionRules strict).Lasting pid fun c => v ∈ c.world.canvas.versions := versions_last v
      split
      · exact fun _ _ _ => trivial
      · rename_i normalized hnormalized
        split
        · exact fun _ _ _ => trivial
        · refine wp_tick hK hv fun now c' _ hv => wp_tick hK hv fun id c' hi hv => ?_
          refine wp_seq lawful hi (newNodeExecutions_wp hK hv hi _ _ _ _) (fun nodes c' _ h => ?_) fun _ _ _ _ => trivial
          exact createWorkflowExecution_wp rfl (normalized_sound hnormalized) rfl (h.2 nodes rfl) h.1

theorem startExecution_wp (host : Host) (input : StartWorkflowExecutionInput) (inv : ServiceInv strict c) :
    wp (executionTerms strict pid) (startExecution host input) (fun _ _ => True) c := by
  have hK : (executionRules strict).Lasting pid fun _ => True := lasting_const True
  refine wp_seq lawful inv (admitExecution_wp host input) ?_ fun _ _ _ _ => trivial
  rintro ⟨x, reused⟩ c' hi -
  have advance : ∀ {c' : Config machine}, ServiceInv strict c' → wp (executionTerms strict pid)
      (advanceExecution host x.orgID x.workflowID x.id >>= fun _ =>
        canvas (.getWorkflowExecution x.orgID x.workflowID x.id) >>= fun current =>
        .ret ((⟨current.id, current.workflowID, current.workflowVersion, current.status, current.createdAt⟩ :
          WorkflowExecutionStartResult), reused)) (fun _ _ => True) c' := by
    intro c' hi
    refine wp_seq lawful hi (advanceExecution_wp host _ _ _) (fun _ c' _ _ => ?_) fun _ _ _ _ => trivial
    exact wp_perform hK trivial (fun _ _ _ => allowed_read rfl) (fun _ _ _ _ => trivial)
      fun _ _ _ _ _ _ _ _ _ _ _ _ => trivial
  simp only
  split
  · exact fun _ _ _ => trivial
  · split
    · exact wp_tick hK trivial fun _ _ hi _ => advance hi
    · exact advance hi

theorem cancelExecution_wp (orgID workflowID executionID : UUID) :
    wp (executionTerms strict pid) (cancelExecution orgID workflowID executionID) (fun _ _ => True) c := by
  have hK : (executionRules strict).Lasting pid fun _ => True := lasting_const True
  refine wp_tick hK trivial fun now c' _ _ => ?_
  refine wp_perform hK trivial (fun c' hi _ => ?_) (fun _ _ _ _ => trivial) fun c' env x _ _ _ hi' _ _ => ?_
  · exact allowed_canvas (cancelWorkflowExecution_step hi.canvas _ _ _ _)
  · refine wp_tick hK trivial fun _ c' _ _ => ?_
    refine wp_attempt hK trivial (fun _ _ _ => allowed_read rfl) fun c' env _ _ _ hi' _ => ?_
    split
    · exact wp_seq lawful hi' (recordCancelled_wp hK trivial _) (fun _ _ _ _ _ _ _ => trivial) fun _ _ _ _ => trivial
    · exact fun _ _ _ => trivial

theorem reconcileAll_wp (host : Host) (executions : List WorkflowExecution) (inv : ServiceInv strict c) :
    wp (executionTerms strict pid) (reconcileAll host executions) (fun _ _ => True) c := by
  induction executions generalizing c with
  | nil => exact fun _ _ _ => trivial
  | cons x rest ih =>
    have caught : wp (executionTerms strict pid) (advanceExecution host x.orgID x.workflowID x.id).catched
        (fun _ _ => True) c := wp_catched (advanceExecution_wp host _ _ _)
    exact wp_seq lawful inv caught (fun _ _ hi _ => ih hi) fun _ _ _ _ => trivial

theorem reconcileActive_wp (host : Host) (limit : Int) :
    wp (executionTerms strict pid) (reconcileActive host limit) (fun _ _ => True) c :=
  wp_perform (lasting_const True) trivial (fun _ _ _ => allowed_read rfl) (fun _ _ _ _ => trivial)
    fun _ _ executions _ _ _ hi _ _ => reconcileAll_wp host executions hi

end Starting

/-! ### Runs -/

/-- Of the calls that serve a workflow request, what `Promise` says. -/
def Request.promise (strict : Prop) (request : Request) : Config machine → Op → Prop :=
  match request.workflow with
  | true => Promise strict
  | false => fun _ _ => True

section Runs
variable {strict : Prop} {pid : Nat} {c : Config machine} {h : Host} {w : World} {s : State}
  {allow : State → Action machine Request → Prop}

/-- What a request outside the workflow service may do. -/
def Footprint.outside : Footprint := ⟨False, True, True, True, True, True, fun _ => True, NewEvent, fun _ => True, fun _ => True⟩

theorem fits_outside {request : Request} (outside : request.workflow = false) : request.Fits Footprint.outside where
  runs := fun workflow => by rw [outside] at workflow; cases workflow
  workflows := fun _ _ => trivial
  endpoints := fun _ _ => trivial
  results := fun _ _ _ _ => trivial
  sends := fun _ => trivial
  deliveries := fun _ => trivial
  requested := fun _ _ _ _ _ _ => trivial
  dispatched := fun _ _ _ => trivial
  events := fun _ new => new
  posts := fun workflow => by rw [outside] at workflow; cases workflow

theorem wp_outside {own : Config machine → Op → Prop} (any : ∀ c o, own c o) {α : Type} {p : Script α}
    (calls : p.Calls (Op.within Footprint.outside)) :
    wp ((executionRules strict).terms own pid) p (fun _ _ => True) c := by
  refine wp_imp (fun _ _ _ _ => trivial) (wp_calls_lasting (lasting_const True) (fun o ho c _ _ => ?_) trivial calls)
  refine ⟨?_, any c o⟩
  cases o with
  | canvas o => exact (allowed_canvas (CanvasOp.quiet_step (CanvasOp.runs_of_within ho id))).1
  | _ => exact may_frame fun _ => rfl

theorem body_wp (request : Request) (inv : ServiceInv strict c) :
    wp ((executionRules strict).terms (request.promise strict) pid) (body h request) (fun _ _ => True) c := by
  have ended : ∀ {α : Type} {p : Script α} {f : α → Script Outcome}, wp (executionTerms strict pid) p (fun _ _ => True) c →
      (∀ a, ∃ outcome, f a = .ret outcome) → wp (executionTerms strict pid) (p >>= f) (fun _ _ => True) c := by
    intro α p f hp hf
    refine wp_seq lawful inv hp (fun a c' _ _ => ?_) fun _ _ _ _ => trivial
    obtain ⟨outcome, ho⟩ := hf a
    rw [ho]
    exact fun _ _ _ => trivial
  cases hw : request.workflow with
  | false =>
    have any : ∀ c o, request.promise strict c o := by simp [Request.promise, hw]
    exact wp_outside any (body_calls h (fits_outside hw))
  | true =>
    cases request with
    | startExecution input => exact ended (startExecution_wp h input inv) fun _ => ⟨_, rfl⟩
    | advanceExecution orgID workflowID executionID => exact ended (advanceExecution_wp h _ _ _) fun _ => ⟨_, rfl⟩
    | cancelExecution orgID workflowID executionID => exact ended (cancelExecution_wp _ _ _) fun _ => ⟨_, rfl⟩
    | reconcileActive limit => exact ended (reconcileActive_wp h limit) fun _ => ⟨_, rfl⟩
    | _ => cases hw

theorem ServiceInv.fresh (fresh : w.Fresh) : ServiceInv strict ⟨w, []⟩ where
  tasks := by simp [fresh.tasks]
  canvas := {
    versions := fresh.versions
    ids := by simp [fresh.executions]
    owners := by simp [fresh.nodes]
    runs := fun id r hr => by simp [runOf, fresh.executions] at hr
    pins := fun id r hr => by simp [runOf, fresh.executions] at hr }

/-- In every run the executions are as the invariant says, and every process keeps to its discipline. -/
theorem executions_run (strict : Prop) (fresh : w.Fresh)
    (grant : strict → ∀ s pid env o, allow s (.step pid env) → s.Calling pid o →
      ∀ executionID nodeID, o = .sys (.recovery executionID nodeID) → Unskipped s.config.world executionID nodeID)
    (reach : Reachable h allow w s) :
    ServiceInv strict s.config ∧
      s.Meets (fun request pid => (executionRules strict).terms (request.promise strict) pid) fun _ _ _ _ => True := by
  refine System.Reach.disciplined executionRules_sound (Request.promise strict) _ (ServiceInv.fresh fresh) ?_ ?_ reach
  · intro s pid env o prior allowed calling _ _ _ _ _
    exact ⟨fun d hd hs => delivered_step fresh prior calling env hd hs, fun hs => grant hs s pid env o allowed calling⟩
  · exact fun s request _ _ hi _ => body_wp request hi

end Runs

end Windylane
