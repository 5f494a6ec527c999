import Windylane.Theorems.Idempotency
import Windylane.Theorems.Links
import Windylane.Theorems.Returns
import Windylane.Theorems.Versions

/-! A start that is sent again. The row that the first start stored keeps its key, its version and its fingerprint; a later
    start with the same arguments finds it by its key, and compares its own fingerprint, for which it looks the workflow and
    the version up again. From there on nothing that it reads makes it fail. -/

namespace Windylane

open Conc Script Prog

-- the conditions on texts are not decided here
seal trimSpace

/-! ### The first start -/

/-- The row `x` is what a start with this input inserts, after the calls `past`. -/
structure Requested (h : Host) (input : StartWorkflowExecutionInput) (past : List machine.Exchange) (x : WorkflowExecution) :
    Prop where
  orgID : x.orgID = input.orgID
  workflowID : x.workflowID = input.workflowID
  key : x.idempotencyKey = trimSpace input.idempotencyKey
  named : ¬ (trimSpace input.idempotencyKey = "" ∨ 255 < (trimSpace input.idempotencyKey).utf8ByteSize)
  fingerprint : ∃ normalized, normalizeWorkflowExecutionInput input.input = some normalized ∧
    ¬ maxWorkflowExecutionInputBytes < h.size normalized ∧
    x.requestFingerprint = workflowExecutionFingerprint h input.workflowID x.workflowVersion normalized
  version : ∀ n, input.version = some n → ¬ n ≤ 0 ∧ ∃ v : WorkflowVersion,
    (⟨.canvas (.getWorkflowVersion input.orgID input.workflowID n), .ok v⟩ : machine.Exchange) ∈ past ∧
      v.status = .published ∧ v.version = x.workflowVersion

/-- An execution is inserted only as it was requested. -/
def InsertsRequested (h : Host) (input : StartWorkflowExecutionInput) (past : List machine.Exchange) : Op → Prop
  | .canvas (.insertWorkflowExecution x _) => Requested h input past x
  | _ => True

section First
variable {h : Host} {input : StartWorkflowExecutionInput} {past : List machine.Exchange}

abbrev Inserting {α : Type} (h : Host) (input : StartWorkflowExecutionInput) (φ : List machine.Exchange → α → Prop)
    (past : List machine.Exchange) (p : Script α) : Prop :=
  p.Walks (fun _ _ => True) (InsertsRequested h input) φ past

theorem inserting_sys {α : Type} {φ : List machine.Exchange → α → Prop} {o : SysOp} {f : o.Resp → Script α}
    (rest : ∀ a, Inserting h input φ (past ++ [⟨.sys o, .ok a⟩]) (f a)) : Inserting h input φ past (sys o >>= f) :=
  walks_perform trivial fun a _ => rest a

theorem selectVersion_inserting (orgID workflowID : UUID) (requested : Option Int) :
    Inserting h input (fun after v => ∀ n, requested = some n → ¬ n ≤ 0 ∧ v.status = .published ∧
      (⟨.canvas (.getWorkflowVersion orgID workflowID n), .ok v⟩ : machine.Exchange) ∈ after) past
      (selectVersion orgID workflowID requested) := by
  unfold selectVersion
  split
  · rename_i n
    simp only
    split
    · exact walks_fail _
    · rename_i positive
      refine walks_perform trivial fun version _ => ?_
      split
      · exact walks_fail _
      · rename_i published
        refine walks_ret fun n' same => ?_
        cases same
        exact ⟨positive, not_not.1 published, List.mem_append_right _ (List.mem_singleton_self _)⟩
  · refine walks_perform trivial fun version _ => ?_
    simp only
    split
    · exact walks_fail _
    · exact walks_ret fun _ none => by cases none

theorem newNodeExecutions_inserting (orgID executionID : UUID) (now : Time) (todo : List WorkflowNode) :
    Inserting h input (fun _ _ => True) past (newNodeExecutions orgID executionID now todo) := by
  induction todo generalizing past with
  | nil => exact walks_ret trivial
  | cons m rest ih => exact inserting_sys fun id => ih.bind fun _ _ _ _ => walks_ret trivial

theorem createWorkflowExecution_inserting {x : WorkflowExecution} {nodes : List WorkflowNodeExecution}
    (requested : ∀ after, past <+: after → Requested h input after x) :
    Inserting h input (fun _ _ => True) past (createWorkflowExecution x nodes) := by
  have reuse {past : List machine.Exchange} (existing : WorkflowExecution) :
      Inserting h input (fun _ _ => True) past (reuseExecution existing x.requestFingerprint) := by
    unfold reuseExecution
    split
    · exact walks_fail _
    · exact walks_ret trivial
  refine walks_attempt trivial fun answer _ => ?_
  split
  · exact reuse _
  · refine walks_perform (requested _ (List.prefix_append _ _)) fun inserted _ => ?_
    simp only
    split
    · exact walks_ret trivial
    · exact walks_perform trivial fun existing _ => reuse existing
  · exact walks_fail _

theorem admitExecution_inserting : Inserting h input (fun _ _ => True) past (admitExecution h input) := by
  unfold admitExecution
  simp only
  split
  · exact walks_fail _
  rename_i named
  refine walks_perform trivial fun workflow _ => ?_
  split
  · exact walks_fail _
  refine (selectVersion_inserting _ _ _).bind fun read version _ selected => ?_
  split
  · exact walks_fail _
  rename_i normalized hnormalized
  split
  · exact walks_fail _
  rename_i small
  refine inserting_sys fun now => inserting_sys fun id => ?_
  refine (newNodeExecutions_inserting _ _ _ _).bind fun before nodes grown _ =>
    createWorkflowExecution_inserting fun after later => ?_
  have grown : read <+: after := ((List.prefix_append _ _).trans (List.prefix_append _ _)).trans (grown.trans later)
  refine ⟨rfl, rfl, rfl, named, ⟨normalized, hnormalized, small, rfl⟩, fun n given => ?_⟩
  obtain ⟨positive, published, answered⟩ := selected n given
  exact ⟨positive, version, grown.subset answered, published, rfl⟩

/-- Nothing but the insert of a start is restricted. -/
theorem InsertsRequested.of_not_insert {o : Op} (other : ∀ x nodes, o ≠ .canvas (.insertWorkflowExecution x nodes)) :
    InsertsRequested h input past o := by
  unfold InsertsRequested
  split
  · exact absurd rfl (other _ _)
  · trivial

theorem advanceExecution_inserting (orgID workflowID executionID : UUID) :
    (advanceExecution h orgID workflowID executionID).Heeds (InsertsRequested h input) := by
  have free : ∀ o : Op, o.advances ∨ o.dispatches → ∀ past, InsertsRequested h input past o := by
    rintro o (advances | dispatches) past
    · refine .of_not_insert ?_
      rintro x nodes rfl
      exact advances
    · refine .of_not_insert ?_
      rintro x nodes rfl
      exact dispatches
  refine advanceExecution_in (units_of_calls (A := fun o => o.advances ∨ o.dispatches) (closed_heeds free) fun o => Or.inl) h ?_ ?_ _ _ _
  · intros
    exact (dispatchWorkflowTask_dispatches h _ _ _ _ _).heeds fun o dispatches => free o (Or.inr dispatches)
  · intros
    exact (dispatchWorkflowWebhook_dispatches h _ _ _).heeds fun o dispatches => free o (Or.inr dispatches)

theorem startExecution_inserting : Inserting h input (fun _ _ => True) past (startExecution h input) := by
  refine admitExecution_inserting.bind ?_
  rintro after ⟨x, reused⟩ - -
  have advance {past : List machine.Exchange} : Inserting h input (fun _ _ => True) past
      (advanceExecution h x.orgID x.workflowID x.id >>= fun _ =>
        canvas (.getWorkflowExecution x.orgID x.workflowID x.id) >>= fun current =>
        .ret ((⟨current.id, current.workflowID, current.workflowVersion, current.status, current.createdAt⟩ :
          WorkflowExecutionStartResult), reused)) :=
    (advanceExecution_inserting _ _ _ past).bind fun _ _ _ _ => walks_perform trivial fun _ _ => walks_ret trivial
  simp only
  split
  · exact walks_fail _
  split
  · exact inserting_sys fun _ => advance
  · exact advance

end First

/-- What a process inserts that serves a start is what was requested. -/
theorem insert_requested {h : Host} {allow : State → Action machine Request → Prop} {w : World} {s : State}
    (reach : Reachable h allow w s) {pid : Nat} {input : StartWorkflowExecutionInput} {x : WorkflowExecution}
    {nodes : List WorkflowNodeExecution} {k : machine.Answer (.canvas (.insertWorkflowExecution x nodes)) → Script Outcome}
    (hp : s.procs[pid]? = some ⟨.startExecution input, .call (.canvas (.insertWorkflowExecution x nodes)) k, true⟩) :
    Requested h input (history pid s.config.trace) x := by
  have programs : ∀ request, (body h request).Along (fun _ _ => True)
      (fun past o => request = .startExecution input → InsertsRequested h input past o) (fun _ _ => True) [] := by
    intro request
    by_cases start : request = .startExecution input
    · subst start
      have walk : Inserting h input (fun _ _ => True) [] (body h (.startExecution input)) :=
        startExecution_inserting.bind fun _ _ _ _ => walks_ret trivial
      exact (Along.imp walk fun _ _ _ => trivial).mono fun _ _ inserts _ => inserts
    · exact (calls_any (body h request)).along (fun _ _ _ same => absurd same start) fun _ _ => trivial
  exact (reach.along (fun _ _ _ _ _ _ _ => trivial) programs hp).1 rfl

/-! ### A later start -/

/-- The version that `GetWorkflowVersion` answers while the workflow is not deleted. -/
def Numbered (orgID workflowID : UUID) (n : Int) (v : WorkflowVersion) (s : Canvas.Store) : Prop :=
  (s.versions.filter fun v => v.orgID = orgID && v.workflowID = workflowID).find? (fun v => v.version = n) = some v

/-- The execution of a start is stored, alone with its key, and so are the version that it runs and the one that was named. -/
structure Restartable (input : StartWorkflowExecutionInput) (x : WorkflowExecution) (v : WorkflowVersion) (w : World) : Prop extends
    StillStored x v w where
  keyed : w.Keyed
  numbered : ∀ n, input.version = some n → ∃ v', Numbered input.orgID input.workflowID n v' w.canvas ∧
    v'.status = .published ∧ v'.version = x.workflowVersion

/-- The workflow is published, and a start that names no version takes the one that `x` runs. -/
structure Offers (input : StartWorkflowExecutionInput) (x : WorkflowExecution) (w : World) : Prop where
  workflow : ∃ workflow, Canvas.getWorkflowByID input.orgID input.workflowID w.canvas = .ok workflow ∧
    workflow.status = .published
  latest : input.version = none → ∃ v, Canvas.getLatestWorkflowVersion input.orgID input.workflowID w.canvas = .ok v ∧
    v.status = .published ∧ v.version = x.workflowVersion

/-- The calls by which a start looks up what it is to run. -/
def Op.readsWorkflow : Op → Bool
  | .canvas (.getWorkflowByID _ _) | .canvas (.getWorkflowVersion _ _ _) | .canvas (.getLatestWorkflowVersion _ _) => true
  | _ => false

/-- What a later start is answered when no call fails and the workflow is offered as before when it is looked up. -/
def Rereads (input : StartWorkflowExecutionInput) (x : WorkflowExecution) (v : WorkflowVersion) (o : Op) (r : machine.Answer o) :
    Prop :=
  ∃ env w, env.fault = none ∧ Restartable input x v w ∧ (o.readsWorkflow = true → Offers input x w) ∧ r = (o.exec env w).1

section Later
variable {h : Host} {input : StartWorkflowExecutionInput} {x : WorkflowExecution} {v : WorkflowVersion} {α : Type}
  {φ : Except Err α → Prop}

theorem Rereads.reads {o : Op} {r : machine.Answer o} (answer : Rereads input x v o r) : Reads x v o r := by
  obtain ⟨env, w, calm, stored, -, rfl⟩ := answer
  exact ⟨env, w, calm, stored.toStillStored, rfl⟩

theorem rereads_sys {o : SysOp} {f : o.Resp → Script α} (rest : ∀ a, (f a).Ends (Rereads input x v) φ) :
    (sys o >>= f).Ends (Rereads input x v) φ := by
  intro r answer
  obtain ⟨a, rfl⟩ := answer.reads.stores.sys
  exact rest a

/-- A call whose answer is known. -/
theorem rereads_canvas {o : CanvasOp} {f : o.Resp → Script α} {P : o.Resp → Prop}
    (answers : ∀ w, Restartable input x v w → ((Op.canvas o).readsWorkflow = true → Offers input x w) →
      ∃ a, (o.run w.canvas).1 = .ok a ∧ P a)
    (rest : ∀ a, P a → (f a).Ends (Rereads input x v) φ) : (canvas o >>= f).Ends (Rereads input x v) φ := by
  rintro r ⟨env, w, calm, stored, offers, rfl⟩
  obtain ⟨a, answered, known⟩ := answers w stored offers
  have run : ((Op.canvas o).exec env w).1 = .ok a := by
    rw [Op.exec_calm calm]
    exact answered
  rw [run]
  exact rest a known

/-- The versions of a workflow that is not deleted. -/
theorem versionsOf_live {orgID workflowID : UUID} {s : Canvas.Store}
    (live : (s.workflows.any fun w => w.id = workflowID && w.orgID = orgID && w.deletedAt.isNone) = true) :
    Canvas.versionsOf orgID workflowID s = s.versions.filter fun v => v.orgID = orgID && v.workflowID = workflowID := by
  refine List.filter_congr fun v _ => ?_
  by_cases org : v.orgID = orgID
  · by_cases own : v.workflowID = workflowID
    · subst org own
      rw [live, Bool.and_true]
    · simp [own]
  · simp [org]

theorem versionsOf_current {orgID workflowID : UUID} {s : Canvas.Store} {workflow : Workflow}
    (current : Canvas.getWorkflowByID orgID workflowID s = .ok workflow) :
    Canvas.versionsOf orgID workflowID s = s.versions.filter fun v => v.orgID = orgID && v.workflowID = workflowID := by
  unfold Canvas.getWorkflowByID at current
  split at current
  · rename_i row found
    have known := List.find?_some found
    simp only [Bool.and_eq_true, decide_eq_true_eq] at known
    exact versionsOf_live (List.any_eq_true.2 ⟨row, List.mem_of_find?_eq_some found, by simp [known]⟩)
  · cases current

theorem selectVersion_rereads (positive : ∀ n, input.version = some n → ¬ n ≤ 0) :
    (selectVersion input.orgID input.workflowID input.version).Ends (Rereads input x v)
      (fun r => ∃ v' : WorkflowVersion, r = .ok v' ∧ v'.version = x.workflowVersion) := by
  have checked (v' : WorkflowVersion) (selected : v'.status = .published ∧ v'.version = x.workflowVersion) :
      (if v'.status ≠ .published then Script.fail .workflowVersionNotFound else pure v').Ends (Rereads input x v)
        (fun r => ∃ v' : WorkflowVersion, r = .ok v' ∧ v'.version = x.workflowVersion) := by
    rw [if_neg (not_not.2 selected.1)]
    exact ⟨v', rfl, selected.2⟩
  unfold selectVersion
  split
  · rename_i n given
    simp only
    rw [if_neg (positive n given)]
    refine rereads_canvas (P := fun v' => v'.status = .published ∧ v'.version = x.workflowVersion) (fun w stored offers => ?_) checked
    obtain ⟨workflow, current, -⟩ := (offers rfl).workflow
    obtain ⟨v', numbered, selected⟩ := stored.numbered n given
    refine ⟨v', ?_, selected⟩
    simp only [CanvasOp.run, Canvas.getWorkflowVersion, versionsOf_current current]
    rw [numbered]
  · rename_i omitted
    refine rereads_canvas (P := fun v' => v'.status = .published ∧ v'.version = x.workflowVersion) (fun w stored offers => ?_) checked
    obtain ⟨v', latest, selected⟩ := (offers rfl).latest omitted
    exact ⟨v', latest, selected⟩

theorem newNodeExecutions_rereads (orgID executionID : UUID) (now : Time) (todo : List WorkflowNode) :
    (newNodeExecutions orgID executionID now todo).Ends (Rereads input x v) Returns := by
  induction todo with
  | nil => exact ⟨_, rfl⟩
  | cons m rest ih =>
    refine rereads_sys fun id => Ends.bind ih (fun _ _ => ⟨_, rfl⟩) ?_
    rintro e ⟨_, he⟩
    cases he

/-- The row with the key is the execution. -/
theorem Restartable.found {w : World} (stored : Restartable input x v w) :
    ∃ y, Canvas.getWorkflowExecutionByIdempotency x.orgID x.idempotencyKey w.canvas = .ok y ∧ SameExecution x y := by
  obtain ⟨y, hy, same⟩ := stored.stored
  unfold Canvas.getWorkflowExecutionByIdempotency
  cases found : w.canvas.executions.find? (fun z => z.orgID = x.orgID && z.idempotencyKey = x.idempotencyKey) with
  | none => exact absurd (List.find?_eq_none.1 found y hy) (by simp [same.orgID, same.idempotencyKey])
  | some z =>
    refine ⟨z, rfl, ?_⟩
    have matched := List.find?_some found
    simp only [Bool.and_eq_true, decide_eq_true_eq] at matched
    have key : z.entry.key = y.entry.key := by
      simp [WorkflowExecution.entry, matched, same.orgID, same.idempotencyKey]
    have hz := List.mem_of_find?_eq_some found
    have entry : z.entry = y.entry := Table.eq_of_filterMap stored.keyed (List.mem_append_right _ (List.mem_map_of_mem hz))
      (List.mem_append_right _ (List.mem_map_of_mem hy)) key rfl
    have row : z = y := Table.eq_of_key stored.canvas.ids hz hy (congrArg Entry.id entry)
    rw [row]
    exact same

/-- The key is looked up, and the row that is found is of the same request. -/
theorem createWorkflowExecution_rereads {z : WorkflowExecution} (orgID : z.orgID = x.orgID)
    (key : z.idempotencyKey = x.idempotencyKey) (fingerprint : z.requestFingerprint = x.requestFingerprint)
    (nodes : List WorkflowNodeExecution) :
    (createWorkflowExecution z nodes).Ends (Rereads input x v) (fun r => ∃ y, r = .ok (y, true) ∧ SameExecution x y) := by
  unfold createWorkflowExecution
  rw [orgID, key, fingerprint]
  rintro r ⟨env, w, calm, stored, -, rfl⟩
  obtain ⟨y, found, same⟩ := stored.found
  have answered : (Op.exec env (.canvas (.getWorkflowExecutionByIdempotency x.orgID x.idempotencyKey)) w).1 = .ok y := by
    rw [Op.exec_calm calm]
    exact found
  rw [answered]
  show (reuseExecution y x.requestFingerprint).Ends _ _
  rw [reuseExecution, if_neg (not_not.2 same.requestFingerprint)]
  exact ⟨y, rfl, same⟩

theorem admitExecution_rereads {past : List machine.Exchange} (requested : Requested h input past x) :
    (admitExecution h input).Ends (Rereads input x v) (fun r => ∃ y, r = .ok (y, true) ∧ SameExecution x y) := by
  obtain ⟨normalized, hnormalized, small, fingerprint⟩ := requested.fingerprint
  unfold admitExecution
  simp only
  rw [if_neg requested.named]
  refine rereads_canvas (P := fun workflow => workflow.status = .published) (fun w _ offers => (offers rfl).workflow) ?_
  intro workflow published
  rw [if_neg (not_not.2 published)]
  refine Ends.bind (selectVersion_rereads fun n given => (requested.version n given).1) ?_ ?_
  · rintro version ⟨_, he, number⟩
    cases he
    rw [hnormalized]
    simp only
    rw [if_neg small]
    refine rereads_sys fun now => rereads_sys fun id => Ends.bind (newNodeExecutions_rereads _ _ _ _) (fun nodes _ => ?_) ?_
    · refine createWorkflowExecution_rereads requested.orgID.symm requested.key.symm ?_ nodes
      rw [fingerprint, number]
    · rintro e ⟨_, he⟩
      cases he
  · rintro e ⟨_, he, -⟩
    cases he

/-- The answer names the execution. -/
def Reuses (x : WorkflowExecution) (r : Except Err (WorkflowExecutionStartResult × Bool)) : Prop :=
  ∃ status, r = .ok (⟨x.id, x.workflowID, x.workflowVersion, status, x.createdAt⟩, true)

theorem startExecution_rereads {past : List machine.Exchange} (requested : Requested h input past x) (pins : Pins v x)
    (accepted : (validateWorkflowDefinition h.uuidParse v.definition).valid = true) :
    (startExecution h input).Ends (Rereads input x v) (Reuses x) := by
  refine Ends.bind (admitExecution_rereads requested) ?_ ?_
  · rintro ⟨y, reused⟩ ⟨_, he, same⟩
    cases he
    simp only
    rw [if_neg (by simp [same.workflowID, requested.workflowID])]
    simp only [Bool.not_true, Bool.false_eq_true, if_false]
    rw [same.orgID, same.workflowID, same.id]
    refine Ends.bind ((advanceExecution_returns pins accepted).answered fun o r answer => answer.reads) (fun _ _ => ?_) ?_
    · refine rereads_canvas (P := SameExecution x) (fun w stored _ => stored.execution) fun current same => ?_
      exact ⟨current.status, by rw [same.id, same.workflowID, same.workflowVersion, same.createdAt]⟩
    · rintro e ⟨_, he⟩
      cases he
  · rintro e ⟨_, he, -⟩
    cases he

end Later

/-! ### Runs -/

section Runs
variable {h : Host} {w : World} {s s₀ s₁ : State} {allow : State → Action machine Request → Prop}
  {input : StartWorkflowExecutionInput} {x : WorkflowExecution} {v : WorkflowVersion}

theorem Numbered.grown {orgID workflowID : UUID} {n : Int} {c c' : Canvas.Store} (numbered : Numbered orgID workflowID n v c)
    (more : c.versions <+: c'.versions) : Numbered orgID workflowID n v c' :=
  (more.filter _).find?_eq_some numbered

theorem numbered_answered {env : Env} {w : World} {orgID workflowID : UUID} {n : Int}
    (ok : (Op.exec env (.canvas (.getWorkflowVersion orgID workflowID n)) w).1 = .ok v) :
    Numbered orgID workflowID n v w.canvas := by
  rw [Op.exec_ok ok] at ok
  simp only [Op.run, CanvasOp.run, Canvas.getWorkflowVersion] at ok
  split at ok
  · rename_i v' found
    cases ok
    have listed := (List.mem_filter.1 (List.mem_of_find?_eq_some found)).2
    simp only [Bool.and_eq_true, decide_eq_true_eq] at listed
    obtain ⟨⟨rfl, rfl⟩, live⟩ := listed
    rw [versionsOf_live live] at found
    exact found
  · cases ok

/-- The version that the call was answered with, if it asked for one by its number, is still the one with that number. -/
def StillNumbered (c : Config machine) (exchange : machine.Exchange) : Prop :=
  ∀ orgID workflowID n v, exchange = ⟨.canvas (.getWorkflowVersion orgID workflowID n), .ok v⟩ →
    Numbered orgID workflowID n v c.world.canvas

/-- A version that was answered is the one with its number for good. -/
theorem numbered_run (fresh : w.Fresh) (reach : Reachable h allow w s) {pid : Nat} {orgID workflowID : UUID} {n : Int}
    (answered : (⟨.canvas (.getWorkflowVersion orgID workflowID n), .ok v⟩ : machine.Exchange) ∈ history pid s.config.trace) :
    Numbered orgID workflowID n v s.config.world.canvas := by
  refine (reach.recalls (W := fun _ => True) (K := StillNumbered) trivial ?_).2 pid _ answered _ _ _ _ rfl
  intro s pid env o prior _ calling _ _
  have grown := (canvas_step fresh prior calling env).versions
  refine ⟨trivial, ?_, fun c recalled orgID workflowID n v same => (recalled _ _ _ _ same).grown grown⟩
  intro orgID workflowID n v same
  obtain ⟨rfl, same⟩ := Sigma.mk.inj same
  exact (numbered_answered (eq_of_heq same)).grown grown

theorem restartable_run (fresh : w.Fresh) (first : Reachable h anything w s₁) (later : System.Reach (body h) allow s₁ s)
    (stored : Restartable input x v s₁.config.world) : Restartable input x v s.config.world := by
  refine later.invariant (fun s => Restartable input x v s.config.world) stored ?_
  intro s t a prior stored allowed taken
  have reach : Reachable h anything w s := first.trans (prior.mono fun _ _ _ => trivial)
  have still := stored.toStillStored.next fresh reach taken
  rcases System.next_cases taken with ⟨_, -, rfl⟩ | ⟨pid, env, request, o, k, -, hp, rfl⟩ | ⟨_, _, -, -, rfl⟩
  · exact stored
  · have step := canvas_step fresh reach ⟨request, k, hp⟩ env
    refine ⟨still, stored.keyed.step env o, fun n given => ?_⟩
    obtain ⟨v', numbered, selected⟩ := stored.numbered n given
    exact ⟨v', numbered.grown step.versions, selected⟩
  · exact stored

/-- After the first start, the execution can be found again. -/
theorem restartable_created (fresh : w.Fresh) (first : Reachable h anything w s₀) {pid : Nat} {env : Env}
    (request : s₀.requests[pid]? = some (.startExecution input)) (taken : s₀.next (body h) (.step pid env) = some s₁)
    (new : x.id ∉ s₀.config.world.canvas.executions.map (·.id)) (created : x ∈ s₁.config.world.canvas.executions) :
    (∃ past, Requested h input past x) ∧ ∃ v, Restartable input x v s₁.config.world ∧ Pins v x := by
  have reach : Reachable h anything w s₁ := first.next _ trivial taken
  have canvas := canvas_inv fresh reach
  obtain ⟨v, hv, pins⟩ := canvas.pins _ _ (canvas.runOf_of_mem created)
  rcases System.next_cases taken with ⟨_, ha, -⟩ | ⟨actor, _, served, o, k, ha, hp, rfl⟩ | ⟨_, _, ha, -, -⟩
  · cases ha
  · cases ha
    rw [System.requests_at hp] at request
    cases request
    have grown := (canvas_step fresh first ⟨_, k, hp⟩ env).versions
    obtain ⟨nodes, rfl, -⟩ := execution_appears created new
    have requested := insert_requested first hp
    refine ⟨⟨_, requested⟩, v, ⟨⟨canvas, ⟨x, created, .refl x⟩, hv⟩, keyed_run fresh reach, fun n given => ?_⟩, pins⟩
    obtain ⟨-, v', answered, selected⟩ := requested.version n given
    exact ⟨v', (numbered_run fresh first answered).grown grown, selected⟩
  · cases ha

/-- Nothing but editing writes workflows and versions. -/
theorem CanvasOp.workflows_kept {o : CanvasOp} (within : o.within Footprint.offWorkflows) (c : Canvas.Store) :
    (o.run c).2.workflows = c.workflows ∧ (o.run c).2.versions = c.versions := by
  cases o with
  | createWorkflow | updateWorkflow | softDeleteWorkflow | publishWorkflow | createWorkflowVersion => cases within
  | insertWorkflowExecution =>
    simp only [CanvasOp.run, Canvas.insertWorkflowExecution]
    repeat' split
    all_goals exact ⟨rfl, rfl⟩
  | claimWorkflowNode =>
    simp only [CanvasOp.run, Canvas.claimWorkflowNode]
    split <;> exact ⟨rfl, rfl⟩
  | finalizeWorkflowExecution =>
    simp only [CanvasOp.run, Canvas.finalizeWorkflowExecution]
    split <;> exact ⟨rfl, rfl⟩
  | cancelWorkflowExecution =>
    simp only [CanvasOp.run, Canvas.cancelWorkflowExecution]
    repeat' split
    all_goals exact ⟨rfl, rfl⟩
  | _ => exact ⟨rfl, rfl⟩

theorem Offers.kept {o : Op} (within : o.within Footprint.offWorkflows) (offers : Offers input x w) (env : Env) :
    Offers input x (o.exec env w).2 := by
  have kept : (o.exec env w).2.canvas.workflows = w.canvas.workflows ∧ (o.exec env w).2.canvas.versions = w.canvas.versions := by
    rcases o.exec_world env w with same | ran
    · rw [same]
      exact ⟨rfl, rfl⟩
    · rw [ran]
      cases o with
      | canvas o => exact o.workflows_kept within w.canvas
      | sys | task | worker | broker | hook => exact ⟨rfl, rfl⟩
  obtain ⟨workflow, latest⟩ := offers
  refine ⟨?_, ?_⟩
  · simpa only [Canvas.getWorkflowByID, kept.1] using workflow
  · simpa only [Canvas.getLatestWorkflowVersion, Canvas.versionsOf, kept.1, kept.2] using latest

/-- The calls of `pid` do not fail, and the workflow is offered as before when it is looked up. -/
def Repeats (input : StartWorkflowExecutionInput) (x : WorkflowExecution) (pid : Nat) (s : State) (a : Action machine Request) :
    Prop :=
  ∀ env, a = .step pid env → env.fault = none ∧ ∀ o, s.Calling pid o → o.readsWorkflow = true → Offers input x s.config.world

/-- A start that created an execution is answered with that execution when it is sent again, alone or among other calls, as
    long as the workflow is published and a start without a version would take the same one. -/
theorem start_repeated (fresh : w.Fresh) (first : Reachable h anything w s₀) {pid : Nat} {env : Env}
    (request : s₀.requests[pid]? = some (.startExecution input)) (taken : s₀.next (body h) (.step pid env) = some s₁)
    (new : x.id ∉ s₀.config.world.canvas.executions.map (·.id)) (created : x ∈ s₁.config.world.canvas.executions)
    (accepted : ∀ v ∈ s₁.config.world.canvas.versions, v.id = x.workflowVersionID →
      (validateWorkflowDefinition h.uuidParse v.definition).valid = true) :
    (∀ s, System.Reach (body h) anything s₁ s → Offers input x s.config.world → ∀ env : Nat → Env,
      (∀ i, (env i).fault = none) → ∃ status, (Prog.alone (M := machine) env (startExecution h input) s.config.world).1 =
        .ok (⟨x.id, x.workflowID, x.workflowVersion, status, x.createdAt⟩, true)) ∧
    ∀ again s, s₁.procs.length ≤ again → System.Reach (body h) (Repeats input x again) s₁ s →
      ∀ p r, s.procs[again]? = some p → p.request = .startExecution input → p.prog.result = some r →
        ∃ status, r = .ok (.started ⟨x.id, x.workflowID, x.workflowVersion, status, x.createdAt⟩ true) := by
  obtain ⟨⟨past, requested⟩, v, stored, pins⟩ := restartable_created fresh first request taken new created
  have reach : Reachable h anything w s₁ := first.next _ trivial taken
  have ends := startExecution_rereads (v := v) requested pins (accepted v stored.version pins.id)
  constructor
  · intro s later offers env calm
    have reached := reach.trans later
    have within : (startExecution h input).Calls (Op.within Footprint.offWorkflows) := by
      have served : (body h (.startExecution input)).Calls (Op.within Footprint.offWorkflows) :=
        body_offWorkflows h (by rintro edit same; cases same)
      exact served.of_bind
    have runs : RunsAlone (Reachable h anything w) s.procs.length
        (fun r c => Reuses x r ∧ Restartable input x v c.world ∧ Offers input x c.world) (startExecution h input) s.config := by
      refine Prog.solo_calls (M := machine) (I := fun c => Restartable input x v c.world ∧ Offers input x c.world) within ends ?_ ?_
        ⟨restartable_run fresh reach later stored, offers⟩
      · intro s o env _ _ _ calm known
        exact ⟨env, s.config.world, calm, known.1, fun _ => known.2, rfl⟩
      · intro s o env reach calling within calm known
        refine ⟨?_, known.2.kept within env⟩
        obtain ⟨request, k, hp⟩ := calling
        have step : System.Reach (body h) anything s _ := .next _ .refl trivial (System.next_step hp env)
        exact restartable_run fresh reach step known.1
    obtain ⟨t, -, -, answer, -⟩ := alone_of_runs reached (.startExecution input) rfl runs env calm
    exact answer
  · intro again s unstarted later p r hp same ended
    have answered : ∀ c ∈ history again s.config.trace, Rereads input x v c.1 c.2 := by
      refine later.answered (fun c hc => ?_) fun s env o later allowed calling => ?_
      · rw [history_eq_nil fun e he => (reach.pid_lt e he).trans_le unstarted] at hc
        cases hc
      · obtain ⟨calm, offers⟩ := allowed env rfl
        exact ⟨env, s.config.world, calm, restartable_run fresh reach later stored, offers o calling, rfl⟩
    have replays := (reach.trans (later.mono fun _ _ _ => trivial)).replays hp
    rw [same] at replays
    have serves : (body h (.startExecution input)).Ends (Rereads input x v) (fun r => ∃ status,
        r = .ok (.started ⟨x.id, x.workflowID, x.workflowVersion, status, x.createdAt⟩ true)) := by
      refine Ends.bind ends ?_ ?_
      · rintro ⟨result, reused⟩ ⟨status, he⟩
        cases he
        exact ⟨status, rfl⟩
      · rintro e ⟨status, he⟩
        cases he
    exact (replays.ends serves answered).ended ended

end Runs

/-- The start of the sample workflow, up to the insert. -/
def insertingRun : List (Action machine Request) :=
  .spawn (.startExecution (sampleStart .empty)) :: steps 0 1 (idsFrom 100 8)

unseal trimSpace in
theorem insertingRun_repeated : ∃ s₀ s₁ status, (System.init gateWorld).run (body sampleHost) insertingRun = some s₀ ∧
    s₀.next (body sampleHost) (.step 0 (sampleEnv 1 ⟨108⟩)) = some s₁ ∧ s₀.config.world.canvas.executions.length = 0 ∧
    s₁.config.world.canvas.executions.length = 1 ∧
    (Prog.alone (M := machine) (fun _ => sampleEnv 2 ⟨900⟩) (startExecution sampleHost (sampleStart .empty)) s₁.config.world).1 =
      .ok (⟨⟨103⟩, ⟨2⟩, 1, status, 1⟩, true) := by
  obtain ⟨s₀, s₁, x, run, request, taken, before, after, versions, offered, named⟩ : ∃ s₀ s₁ x,
      (System.init gateWorld).run (body sampleHost) insertingRun = some s₀ ∧
      s₀.requests[0]? = some (.startExecution (sampleStart .empty)) ∧
      s₀.next (body sampleHost) (.step 0 (sampleEnv 1 ⟨108⟩)) = some s₁ ∧ s₀.config.world.canvas.executions = [] ∧
      s₁.config.world.canvas.executions = [x] ∧ s₁.config.world.canvas.versions = [sampleVersion] ∧
      s₁.config.world.canvas.workflows = [sampleWorkflow] ∧
      (x.id, x.workflowID, x.workflowVersion, x.createdAt) = (⟨103⟩, ⟨2⟩, 1, 1) :=
    ⟨_, _, _, rfl, rfl, rfl, rfl, rfl, rfl, rfl, rfl⟩
  obtain ⟨id, rest⟩ := Prod.mk.inj named
  obtain ⟨workflow, rest⟩ := Prod.mk.inj rest
  obtain ⟨version, createdAt⟩ := Prod.mk.inj rest
  have offers : Offers (sampleStart .empty) x s₁.config.world := by
    refine ⟨⟨sampleWorkflow, ?_, rfl⟩, fun _ => ⟨sampleVersion, ?_, rfl, version.symm⟩⟩
    · rw [Canvas.getWorkflowByID, offered]
      rfl
    · rw [Canvas.getLatestWorkflowVersion, Canvas.versionsOf, offered, versions]
      rfl
  obtain ⟨status, answer⟩ := (start_repeated gateWorld_fresh (System.reach_of_run (fun _ _ _ => trivial) run) request taken
    (by simp [before]) (by simp [after]) (fun v hv _ => by
      rw [versions, List.mem_singleton] at hv
      subst hv
      decide +kernel)).1 s₁ .refl offers (fun _ => sampleEnv 2 ⟨900⟩) fun _ => rfl
  rw [id, workflow, version, createdAt] at answer
  exact ⟨s₀, s₁, status, run, taken, by rw [before]; rfl, by rw [after]; rfl, answer⟩

/-! ### An edit in between -/

/-- A host whose fingerprints tell versions apart. -/
def versionHost : Host :=
  { sampleHost with
    marshal := fun value => match value with
      | .obj [_, (_, .num version), _] => if version.num = 1 then "1" else "2"
      | _ => "" }

/-- The workflow is started, renamed, and started again; then it is published and started once more. -/
def renamedRun : List (Action machine Request) :=
  .spawn (.startExecution (sampleStart .empty)) :: steps 0 1 (idsFrom 100 45) ++
    .spawn (.edit (.updateWorkflow ⟨1⟩ ⟨2⟩ ⟨some "renamed", none, none, .empty⟩)) :: steps 1 2 [0, 0, 0] ++
    .spawn (.startExecution (sampleStart .empty)) :: steps 2 3 [0] ++
    .spawn (.edit (.publishWorkflow ⟨1⟩ ⟨2⟩)) :: steps 3 4 [0, 0, 31, 0] ++
    .spawn (.startExecution (sampleStart .empty)) :: steps 4 5 (idsFrom 500 8)

unseal trimSpace in
theorem renamedRun_refused : ∃ s : State, (System.init gateWorld).run (body versionHost) renamedRun = some s ∧
    (s.procs[0]?).bind (·.prog.result) = some (.ok (.started ⟨⟨103⟩, ⟨2⟩, 1, .succeeded, 1⟩ false)) ∧
    (s.procs[2]?).bind (·.prog.result) = some (.error .workflowNotPublished) ∧
    (s.procs[4]?).bind (·.prog.result) = some (.error .workflowExecutionIdempotencyConflict) :=
  ⟨_, rfl, rfl, rfl, rfl⟩

end Windylane
