import Windylane.Lib.History
import Windylane.Theorems.Idempotency
import Windylane.Theorems.Tasks

/-! The messages of tasks, and what a call says of them. A producer stores the row of a task, sends its message and marks
    the row; a worker that takes the message and cannot claim the row drops the message. -/

namespace Windylane

open Conc Script Prog

-- the conditions on texts are not decided here
seal trimSpace

/-! ### What a producer reports -/

/-- The call stored the row: the insert, or the requeue, was answered. -/
def Stored (request : Request) (past : List machine.Exchange) : Prop :=
  match request with
  | .createTask _ => ∃ t, ⟨.task (.create t), .ok ()⟩ ∈ past
  | .retryTask orgID id => ∃ now, ⟨.task (.requeue orgID id now), .ok ()⟩ ∈ past
  | _ => False

/-- The message could not be sent, or the row could not be marked. -/
def Fails : machine.Exchange → Prop
  | ⟨.broker (.enqueue _ _ _ _), .error _⟩ | ⟨.broker (.enqueueDelayed _ _ _ _ _), .error _⟩
  | ⟨.task (.markDispatched _ _ _), .error _⟩ => True
  | _ => False

/-- A task that was requeued is not found. -/
def Loses (first second : machine.Exchange) : Prop :=
  match first, second with
  | ⟨.task (.requeue orgID id _), .ok _⟩, ⟨.task (.getByID org task), .error _⟩ => org = orgID ∧ task = id
  | _, _ => False

/-- Nothing of the kind happened. -/
structure Clean (past : List machine.Exchange) : Prop where
  sent : ∀ c ∈ past, ¬ Fails c
  found : past.Pairwise fun first second => ¬ Loses first second

/-- The call returns a task without an error. -/
def Succeeds (r : Except Err Outcome) : Prop := ∃ task reused, r = .ok (.task ⟨some task, reused, none⟩)

theorem Clean.last {past : List machine.Exchange} {c : machine.Exchange} (clean : Clean (past ++ [c])) : ¬ Fails c :=
  clean.sent c (by simp)

section Programs
variable {α : Type} {P : List machine.Exchange → Op → Prop} {Q : List machine.Exchange → Except Err α → Prop}
  {past : List machine.Exchange}

theorem along_sys {o : SysOp} {f : o.Resp → Script α} (ho : P past (.sys o))
    (hf : ∀ a, (f a).Along SysAnswers P Q (past ++ [⟨.sys o, .ok a⟩])) : (Script.sys o >>= f).Along SysAnswers P Q past := by
  refine Along.perform ho (fun e answer => ?_) fun a _ => hf a
  obtain ⟨_, he⟩ := answer
  cases he

/-- Once the row is stored, only the message and its mark can fail. -/
theorem dispatchCreated_along (h : Host) (task : Task) (past : List machine.Exchange) :
    (dispatchCreated h task).Along SysAnswers (fun _ _ => True)
      (fun after r => Clean after → ∃ reused, r = .ok ⟨some task, reused, none⟩) past := by
  have published : ∀ past, (publishTaskEvent h .taskCreated task).Along SysAnswers (fun _ _ => True) (fun _ r => Returns r) past :=
    fun _ => (publishTaskEvent_ends h .taskCreated task).along (fun _ _ answer => answer) (calls_any _) fun _ _ _ => trivial
  refine along_sys trivial fun _ => Along.bind (published _) (fun before _ _ => along_sys trivial fun now => ?_) ?_
  rotate_left
  · rintro _ _ ⟨_, he⟩
    cases he
  have marked : ∀ before, (do
      match ← tryTask (.markDispatched task.orgID task.id now) with
      | .error e => pure ⟨some task, false, some e⟩
      | .ok _ => pure ⟨some task, false, none⟩ : Script TaskResult).Along SysAnswers (fun _ _ => True)
      (fun after r => Clean after → ∃ reused, r = .ok ⟨some task, reused, none⟩) before := by
    refine fun before => ⟨trivial, fun r _ => ?_⟩
    cases r with
    | error e => exact fun clean => (clean.last trivial).elim
    | ok _ => exact fun _ => ⟨false, rfl⟩
  split
  · refine along_sys trivial fun later => ⟨trivial, fun r _ => ?_⟩
    cases r with
    | error e => exact fun clean => (clean.last trivial).elim
    | ok _ => exact marked _
  · refine ⟨trivial, fun r _ => ?_⟩
    cases r with
    | error e => exact fun clean => (clean.last trivial).elim
    | ok _ => exact marked _

theorem createTask_along (h : Host) (input : CreateTaskInput) :
    (createTask h input).Along SysAnswers (fun _ _ => True) (fun past r => Stored (.createTask input) past → Clean past →
      ∃ task reused, r = .ok ⟨some task, reused, none⟩) [] := by
  have unstored : ∀ {past : List machine.Exchange} {r : Except Err TaskResult},
      (∀ t, (⟨.task (.create t), .ok ()⟩ : machine.Exchange) ∉ past) → Stored (.createTask input) past → Clean past →
      ∃ task reused, r = .ok ⟨some task, reused, none⟩ := fun never ⟨t, ht⟩ => (never t ht).elim
  unfold createTask
  split
  · exact unstored (by simp)
  · refine ⟨trivial, fun r _ => ?_⟩
    simp only [Prog.bind]
    split
    · exact unstored (by simp)
    · refine along_sys trivial fun now => along_sys trivial fun id => ⟨trivial, fun r _ => ?_⟩
      simp only [Prog.bind]
      split
      · refine (dispatchCreated_along h _ _).imp fun after r done _ clean => ?_
        obtain ⟨reused, he⟩ := done clean
        exact ⟨_, reused, he⟩
      · refine ⟨trivial, fun r _ => ?_⟩
        simp only [Prog.bind]
        split
        · exact unstored (by simp)
        · exact unstored (by simp)
      · exact unstored (by simp)
    · exact unstored (by simp)

theorem retryTask_along (orgID id : UUID) :
    (retryTask orgID id).Along SysAnswers (fun _ _ => True) (fun past r => Stored (.retryTask orgID id) past → Clean past →
      ∃ task reused, r = .ok ⟨some task, reused, none⟩) [] := by
  have unstored : ∀ {past : List machine.Exchange} {r : Except Err TaskResult},
      (∀ now, (⟨.task (.requeue orgID id now), .ok ()⟩ : machine.Exchange) ∉ past) → Stored (.retryTask orgID id) past →
      Clean past → ∃ task reused, r = .ok ⟨some task, reused, none⟩ := fun never ⟨now, hn⟩ => (never now hn).elim
  refine ⟨trivial, fun r _ => ?_⟩
  cases r with
  | error e => exact unstored (by simp)
  | ok task =>
    refine along_sys trivial fun now => ⟨trivial, fun r _ => ?_⟩
    cases r with
    | error e => exact unstored (by simp)
    | ok _ =>
      refine ⟨trivial, fun r _ => ?_⟩
      cases r with
      | error e => exact fun _ clean => (clean.last trivial).elim
      | ok _ =>
        refine ⟨trivial, fun r _ => ?_⟩
        cases r with
        | error e => exact fun _ clean => (clean.last trivial).elim
        | ok _ =>
          refine ⟨trivial, fun r _ => ?_⟩
          cases r with
          | error e =>
            intro _ clean
            have kept := clean.found
            simp [Loses] at kept
          | ok task => exact fun _ _ => ⟨task, false, rfl⟩

/-- A producer that stored the row reports success, unless its message or its mark failed or the row was lost. -/
theorem body_reports (h : Host) (request : Request) :
    (body h request).Along SysAnswers (fun _ _ => True)
      (fun past r => Stored request past → Clean past → Succeeds r) [] := by
  have other : (∀ past, ¬ Stored request past) → (body h request).Along SysAnswers (fun _ _ => True)
      (fun past r => Stored request past → Clean past → Succeeds r) [] :=
    fun never => (calls_any _).along (fun _ _ _ => trivial) fun past _ stored => (never past stored).elim
  cases request with
  | createTask input =>
    refine Along.bind (createTask_along h input) (fun past result done stored clean => ?_) fun past e done stored clean => ?_
    · obtain ⟨task, reused, he⟩ := done stored clean
      cases he
      exact ⟨task, reused, rfl⟩
    · obtain ⟨task, reused, he⟩ := done stored clean
      cases he
  | retryTask orgID id =>
    refine Along.bind (retryTask_along orgID id) (fun past result done stored clean => ?_) fun past e done stored clean => ?_
    · obtain ⟨task, reused, he⟩ := done stored clean
      cases he
      exact ⟨task, reused, rfl⟩
    · obtain ⟨task, reused, he⟩ := done stored clean
      cases he
  | _ => exact other fun _ stored => stored

end Programs

/-! ### Runs of producers and workers -/

/-- The call of process `pid` meets no fault, no task is deleted, and the row is still pending when the call marks it. -/
structure Unovertaken (pid : Nat) (s : State) (a : Action machine Request) : Prop where
  calm : ∀ env, a = .step pid env → env.fault = none
  kept : ∀ actor env orgID id now, a = .step actor env → ¬ s.Calling actor (.task (.softDelete orgID id now))
  pending : ∀ env orgID id now, a = .step pid env → s.Calling pid (.task (.markDispatched orgID id now)) →
    ∃ r ∈ s.config.world.tasks, r.orgID = orgID ∧ r.id = id ∧ r.status = .pending

/-- A task that the process requeued is there. -/
def Requeued (pid : Nat) (c : Config machine) : Prop :=
  ∀ orgID id now, ⟨.task (.requeue orgID id now), .ok ()⟩ ∈ history pid c.trace →
    ∃ r ∈ c.world.tasks, r.orgID = orgID ∧ r.id = id ∧ r.deletedAt = none

theorem TaskChange.deletedAt {env : Env} {o : TaskOp} {r r' : Task} (h : TaskChange env o r r') :
    r'.deletedAt = r.deletedAt ∨ ∃ orgID id now, o = .softDelete orgID id now := by
  cases h with
  | softDelete => exact Or.inr ⟨_, _, _, rfl⟩
  | _ => exact Or.inl rfl

/-- A row that is not deleted stays so, as long as nothing is deleted. -/
theorem undeleted_kept {w : World} (ids : (w.tasks.map (·.id)).Nodup) {r : Task} (hr : r ∈ w.tasks)
    (there : r.deletedAt = none) {o : Op} (kept : ∀ orgID id now, o ≠ .task (.softDelete orgID id now)) (env : Env) :
    ∃ r' ∈ (Op.exec env o w).2.tasks, r'.orgID = r.orgID ∧ r'.id = r.id ∧ r'.deletedAt = none := by
  obtain ⟨r', hr', rfl | ⟨o', rfl, change⟩⟩ := task_moves ids hr env o
  · exact ⟨r', hr', rfl, rfl, there⟩
  · rcases change.deletedAt with same | ⟨orgID, id, now, rfl⟩
    · exact ⟨r', hr', change.orgID, change.id, same.trans there⟩
    · exact (kept orgID id now rfl).elim

/-- A requeue that is answered leaves a row that is not deleted. -/
theorem requeue_there {env : Env} {orgID id : UUID} {now : Time} {w : World}
    (ok : (Op.exec env (.task (.requeue orgID id now)) w).1 = .ok ()) :
    ∃ r ∈ (Op.exec env (.task (.requeue orgID id now)) w).2.tasks, r.orgID = orgID ∧ r.id = id ∧ r.deletedAt = none := by
  have done := Op.exec_ok ok
  rw [done] at ok ⊢
  simp only [Op.run, TaskOp.run, Tasks.requeue, Tasks.exec] at ok ⊢
  split at ok
  · rename_i found
    obtain ⟨r, hr, hp⟩ := List.any_eq_true.1 found
    rw [if_pos found]
    refine ⟨_, Table.mem_update.2 ⟨r, hr, rfl⟩, ?_⟩
    rw [if_pos hp]
    simp only [Bool.and_eq_true, decide_eq_true_eq, Option.isNone_iff_eq_none] at hp
    exact ⟨hp.1.1.1, hp.1.1.2, hp.2⟩
  · cases ok

section Answers
variable {env : Env} {w : World} {o : Op}

/-- Without faults only a row that is not pending makes a mark fail. -/
theorem not_fails (calm : env.fault = none) (pending : ∀ orgID id now, o = .task (.markDispatched orgID id now) →
    ∃ r ∈ w.tasks, r.orgID = orgID ∧ r.id = id ∧ r.status = .pending) : ¬ Fails ⟨o, (Op.exec env o w).1⟩ := by
  rw [Op.exec_calm calm]
  intro fails
  unfold Fails at fails
  split at fails
  · rename_i he
    obtain ⟨rfl, he⟩ := Sigma.mk.inj he
    cases eq_of_heq he
  · rename_i he
    obtain ⟨rfl, he⟩ := Sigma.mk.inj he
    cases eq_of_heq he
  · rename_i orgID id now _ he
    obtain ⟨rfl, he⟩ := Sigma.mk.inj he
    obtain ⟨r, hr, org, same, status⟩ := pending orgID id now rfl
    have missed := eq_of_heq he
    have found : w.tasks.any (fun r => r.orgID = orgID && r.id = id && r.status = .pending) = true :=
      List.any_eq_true.2 ⟨r, hr, by simp [org, same, status]⟩
    simp [Op.run, TaskOp.run, Tasks.markDispatched, Tasks.exec, found] at missed
  · exact fails

/-- A row that is there is found. -/
theorem not_loses (calm : env.fault = none) {c : machine.Exchange}
    (there : ∀ orgID id now, c = ⟨.task (.requeue orgID id now), .ok ()⟩ →
      ∃ r ∈ w.tasks, r.orgID = orgID ∧ r.id = id ∧ r.deletedAt = none) : ¬ Loses c ⟨o, (Op.exec env o w).1⟩ := by
  rw [Op.exec_calm calm]
  intro loses
  unfold Loses at loses
  split at loses
  · rename_i orgID id now _ org task e he
    obtain ⟨rfl, rfl⟩ := loses
    obtain ⟨rfl, he⟩ := Sigma.mk.inj he
    obtain ⟨r, hr, horg, same, undeleted⟩ := there org task now rfl
    have missed := eq_of_heq he
    simp only [Op.run, TaskOp.run, Tasks.getByID] at missed
    split at missed
    · cases missed
    · rename_i none
      refine List.find?_eq_none.1 none r hr ?_
      simp [horg, same, undeleted]
  · exact loses

end Answers

section Runs
variable {h : Host} {w : World} {s : State} {pid : Nat}

theorem clean_run (ids : (w.tasks.map (·.id)).Nodup) (reach : Reachable h (Unovertaken pid) w s) :
    (s.config.world.tasks.map (·.id)).Nodup ∧ Clean (history pid s.config.trace) ∧ Requeued pid s.config := by
  refine reach.invariant (fun s : State => (s.config.world.tasks.map (·.id)).Nodup ∧
    Clean (history pid s.config.trace) ∧ Requeued pid s.config)
    ⟨ids, ⟨fun _ hc => (by cases hc), List.Pairwise.nil⟩, fun _ _ _ hc => (by cases hc)⟩ ?_
  rintro s t a - ⟨ids, clean, requeued⟩ allowed taken
  rcases System.next_cases taken with ⟨_, -, rfl⟩ | ⟨actor, env, request, o, k, rfl, hp, rfl⟩ | ⟨_, _, -, -, rfl⟩
  · exact ⟨ids, clean, requeued⟩
  · have kept : ∀ orgID id now, o ≠ .task (.softDelete orgID id now) := by
      rintro orgID id now rfl
      exact allowed.kept actor env orgID id now rfl ⟨request, k, hp⟩
    have there : ∀ orgID id now, ⟨.task (.requeue orgID id now), .ok ()⟩ ∈ history pid s.config.trace →
        ∃ r ∈ (Op.exec env o s.config.world).2.tasks, r.orgID = orgID ∧ r.id = id ∧ r.deletedAt = none := by
      intro orgID id now hc
      obtain ⟨r, hr, rfl, rfl, undeleted⟩ := requeued orgID id now hc
      exact undeleted_kept ids hr undeleted kept env
    refine ⟨task_ids_kept ids env o, ?_⟩
    by_cases mine : actor = pid
    · subst mine
      have calm := allowed.calm env rfl
      have pending : ∀ orgID id now, o = .task (.markDispatched orgID id now) →
          ∃ r ∈ s.config.world.tasks, r.orgID = orgID ∧ r.id = id ∧ r.status = .pending := by
        rintro orgID id now rfl
        exact allowed.pending env orgID id now rfl ⟨request, k, hp⟩
      have grown : history actor (s.config.after actor env o).trace =
          history actor s.config.trace ++ [⟨o, (Op.exec env o s.config.world).1⟩] := history_self (by rfl) _
      rw [grown]
      refine ⟨⟨fun c hc => ?_, ?_⟩, fun orgID id now hc => ?_⟩
      · rcases List.mem_append.1 hc with old | new
        · exact clean.sent c old
        · rw [List.mem_singleton.1 new]
          exact not_fails calm pending
      · refine List.pairwise_append.2 ⟨clean.found, List.pairwise_singleton _ _, fun c hc c' hc' => ?_⟩
        rw [List.mem_singleton.1 hc']
        exact not_loses calm fun orgID id now he => requeued orgID id now (he ▸ hc)
      · rw [grown] at hc
        rcases List.mem_append.1 hc with old | new
        · exact there orgID id now old
        · obtain ⟨rfl, answer⟩ := Sigma.mk.inj (List.mem_singleton.1 new)
          exact requeue_there (eq_of_heq answer).symm
    · have same : history pid (s.config.after actor env o).trace = history pid s.config.trace := history_other mine _
      rw [same]
      refine ⟨clean, fun orgID id now hc => ?_⟩
      rw [same] at hc
      exact there orgID id now hc
  · exact ⟨ids, clean, requeued⟩

/-- A call of `CreateTask` or `RetryTask` that stored the row returns success. -/
theorem stored_reported (ids : (w.tasks.map (·.id)).Nodup) (reach : Reachable h (Unovertaken pid) w s)
    {p : Process machine Request Outcome} (hp : s.procs[pid]? = some p) {r : Except Err Outcome}
    (ended : p.prog.result = some r) (stored : Stored p.request (history pid s.config.trace)) : Succeeds r := by
  have along := reach.along (A := SysAnswers) (P := fun _ _ _ => True)
    (Q := fun request past r => Stored request past → Clean past → Succeeds r)
    (fun s pid env o _ _ _ => sysAnswers env o s.config.world) (body_reports h) hp
  exact along.ended ended stored (clean_run ids reach).2.1

/-- A task is created and its message sent; a worker takes the message and claims the task before the row is marked. -/
def overtakenRun : List (Action machine Request) :=
  [.spawn (.createTask sampleTask)] ++ steps 0 0 (idsFrom 100 13) ++
    [.spawn (.dispatch ⟨1⟩ "jobs" "a")] ++ steps 1 0 (idsFrom 200 3) ++ steps 0 0 (idsFrom 300 1)

theorem overtakenRun_calm {a : Action machine Request} (ha : a ∈ overtakenRun) : Calm a := by
  simp only [overtakenRun, List.mem_append, List.mem_singleton] at ha
  rcases ha with (((rfl | ha) | rfl) | ha) | ha
  all_goals first
    | trivial
    | exact steps_calm ha

/-- The task is stored, sent and even claimed, and the call reports that it was not found. -/
theorem overtakenRun_reports : ∃ s p t, (System.init gateWorld).run (body sampleHost) overtakenRun = some s ∧
    (∀ a ∈ overtakenRun, Calm a) ∧ s.procs[0]? = some p ∧ Stored p.request (history 0 s.config.trace) ∧
    ⟨.broker (.enqueue ⟨1⟩ "jobs" ⟨102⟩ 0), .ok ()⟩ ∈ history 0 s.config.trace ∧
    p.prog.result = some (.ok (.task ⟨some t, false, some .taskNotFound⟩)) := by
  refine ⟨_, _, _, rfl, fun a ha => overtakenRun_calm ha, rfl, ?_, ?_, rfl⟩
  · exact ⟨_, List.mem_of_getElem? (i := 3) rfl⟩
  · exact List.mem_of_getElem? (i := 12) rfl

/-- The action deletes nothing, and process `pid` marks a pending row. -/
def unovertaken (pid : Nat) (s : State) : Action machine Request → Bool
  | .step actor env => env.fault.isNone &&
    match s.procs[actor]? with
    | some ⟨_, .call (.task (.softDelete _ _ _)) _, _⟩ => false
    | some ⟨_, .call (.task (.markDispatched orgID id _)) _, _⟩ =>
      actor ≠ pid || s.config.world.tasks.any fun r => r.orgID = orgID && r.id = id && r.status = .pending
    | _ => true
  | _ => true

theorem unovertaken_sound {pid : Nat} {s : State} {a : Action machine Request} (ok : unovertaken pid s a = true) :
    Unovertaken pid s a := by
  refine ⟨?_, ?_, ?_⟩
  · rintro env rfl
    simp only [unovertaken, Bool.and_eq_true, Option.isNone_iff_eq_none] at ok
    exact ok.1
  · rintro actor env orgID id now rfl ⟨request, k, hp⟩
    simp [unovertaken, hp] at ok
  · rintro env orgID id now rfl ⟨request, k, hp⟩
    simp only [unovertaken, hp, Bool.and_eq_true, Bool.or_eq_true, decide_eq_true_eq, ne_eq, not_true_eq_false, false_or,
      List.any_eq_true] at ok
    obtain ⟨-, r, hr, ⟨org, same⟩, status⟩ := ok
    exact ⟨r, hr, org, same, status⟩

/-- The same without the worker. -/
theorem createdRun_reports : ∃ s p r, System.runChecked (body sampleHost) (unovertaken 0) (System.init gateWorld)
      ([.spawn (.createTask sampleTask)] ++ steps 0 0 (idsFrom 100 14)) = some s ∧ s.procs[0]? = some p ∧
    p.prog.result = some r ∧ Succeeds r := by
  obtain ⟨s, p, r, run, hp, ended, stored⟩ : ∃ s p r, System.runChecked (body sampleHost) (unovertaken 0) (System.init gateWorld)
      ([.spawn (.createTask sampleTask)] ++ steps 0 0 (idsFrom 100 14)) = some s ∧ s.procs[0]? = some p ∧
      p.prog.result = some r ∧ Stored p.request (history 0 s.config.trace) := by
    refine ⟨_, _, _, rfl, rfl, rfl, ?_⟩
    exact ⟨_, List.mem_of_getElem? (i := 3) rfl⟩
  have ids : (gateWorld.tasks.map (·.id)).Nodup := List.nodup_nil
  exact ⟨s, p, r, run, hp, ended, stored_reported ids (System.reach_of_checked (fun _ _ _ ok => unovertaken_sound ok) run)
    hp ended stored⟩

end Runs

/-! ### Rejected claims -/

/-- The row waits for a dispatch: it is not marked, or its message is in the pending or the delayed set. -/
def Dispatchable (w : World) (r : Task) : Prop :=
  r.dispatchedAt = none ∨ r.id ∈ (w.broker (r.orgID, r.queue)).pending.map (·.1) ∨
    r.id ∈ (w.broker (r.orgID, r.queue)).delayed.map (·.1)

/-- Every pending row of the task waits for a dispatch. -/
def StillDispatchable (orgID id : UUID) (w : World) : Prop :=
  ∀ r ∈ w.tasks, r.orgID = orgID → r.id = id → r.status = .pending → r.deletedAt = none → Dispatchable w r

section Rejections
variable {h : Host} {s t : State} {pid : Nat} {orgID id : UUID} {queue workerID : String}

/-- An acknowledgement touches neither set. -/
theorem ack_dispatchable {env : Env} {w : World} (calm : env.fault = none)
    (waits : StillDispatchable orgID id w) : StillDispatchable orgID id (Op.exec env (.broker (.ack orgID queue id)) w).2 := by
  rw [Op.exec_calm calm]
  intro r hr org same pending undeleted
  rcases waits r hr org same pending undeleted with unmarked | waiting
  · exact Or.inl unmarked
  · right
    by_cases here : (r.orgID, r.queue) = (orgID, queue)
    · simpa [Op.run, BrokerOp.run, BrokerOp.scope, BrokerOp.runQueue, Broker.ack, here] using waiting
    · simpa [Op.run, BrokerOp.run, BrokerOp.scope, Function.update_of_ne here] using waiting

/-- A claim that is refused leaves everything as it was. -/
theorem refused_unchanged {env : Env} {w : World} {now : Time} {e : Err}
    (unchanged : ∀ e, env.fault ≠ some (.unacked e))
    (refused : (Op.exec env (.task (.claimForProcessing orgID id workerID now)) w).1 = .error e) :
    (Op.exec env (.task (.claimForProcessing orgID id workerID now)) w).2 = w := by
  rcases Op.exec_cases env (.task (.claimForProcessing orgID id workerID now)) w with
    ⟨e, -, lost⟩ | ⟨e, unacked, -⟩ | done
  · rw [lost]
  · exact (unchanged e unacked).elim
  · rw [done] at refused ⊢
    simp only [Op.run, TaskOp.run, Tasks.claimForProcessing] at refused ⊢
    split at refused
    · rfl
    · cases refused

end Rejections

/-- A task is created at 5 s; a worker whose clock says 0 s takes its message. -/
def skewedRun : List (Action machine Request) :=
  [.spawn (.createTask sampleTask)] ++ steps 0 (seconds 5) (idsFrom 100 14) ++
    [.spawn (.dispatch ⟨1⟩ "jobs" "a")] ++ steps 1 0 (idsFrom 200 1)

end Windylane
