import Windylane.Theorems.Footprints
import Windylane.Theorems.Tasks

/-! Who may store the result of a task, and how often a task is claimed. The table compares the status of the row
    only, so a worker whose lease was taken over can still store its result. Where leases are taken over only from
    workers that stopped, a result is stored by the process with the latest claim; where also nothing is taken
    over that is exhausted, no task is claimed more often than it may. -/

namespace Windylane

open Conc Script Prog Discipline

-- the conditions on texts are not decided here
seal trimSpace

/-! ### Claims in the trace -/

/-- The task whose result a call stores. -/
def resultOf : Op → Option UUID
  | .task (.complete _ id _) | .task (.fail _ id _ _ _ _) | .task (.moveToDeadLetter _ id _ _) => some id
  | _ => none

/-- The task that a call claimed. -/
def claimOf : (o : Op) → machine.Answer o → Option UUID
  | .task (.claimForProcessing _ id _ _), .ok _ => some id
  | _, _ => none

/-- The tasks that a call reclaimed. -/
def reclaimsOf : (o : Op) → machine.Answer o → List UUID
  | .task (.reclaimExpired _ _ _ _), .ok reclaimed => reclaimed.map (·.id)
  | _, _ => []

/-- The process with the latest claim on a task, unless the claim was released: by a result, or by being reclaimed. -/
def claimant (id : UUID) : List (Event machine) → Option Nat
  | [] => none
  | e :: rest =>
    if claimOf e.op e.answer = some id then some e.pid
    else if resultOf e.op = some id ∨ id ∈ reclaimsOf e.op e.answer then none
    else claimant id rest

/-- The call takes an expired lease on the row from whoever has it. -/
def takesOver (env : Env) : Op → Task → Bool
  | .task (.claimForProcessing orgID id _ now), r => Tasks.claimable orgID id now env.locked r && r.status = .processing
  | .task (.reclaimExpired orgID queue now _), r => Tasks.expired orgID queue now env.locked r
  | _, _ => false

/-! ### The discipline -/

/-- The attempts of a row are within its budget. -/
structure InBudget (r : Task) : Prop where
  budget : 0 < r.maxAttempts
  attempts : r.attempts ≤ r.maxAttempts
  pending : r.status = .pending → r.attempts < r.maxAttempts

structure LeaseInv (budget : Prop) (c : Config machine) : Prop where
  ids : (c.world.tasks.map (·.id)).Nodup
  budget : budget → ∀ r ∈ c.world.tasks, InBudget r

/-- Results are stored by claimants. With `budget`, tasks are created with attempts, and retried while they have some. -/
def leaseRules (budget : Prop) : Discipline machine where
  inv := LeaseInv budget
  may := fun pid c o =>
    (∀ id, resultOf o = some id → claimant id c.trace = some pid) ∧
    (budget → match o with
      | .task (.create t) => NewTask t
      | .task (.fail _ id _ _ _ _) => ∀ r ∈ c.world.tasks, r.id = id → r.attempts < r.maxAttempts
      | _ => True)
  granted := fun pid c o env => ∀ r ∈ c.world.tasks, takesOver env o r = true →
    claimant r.id c.trace ≠ some pid ∧ (budget → r.attempts < r.maxAttempts)

theorem TaskChange.inBudget {env : Env} {o : TaskOp} {r r' : Task} (h : TaskChange env o r r') (ok : InBudget r)
    (takeover : takesOver env (.task o) r = true → r.attempts < r.maxAttempts)
    (retried : ∀ orgID errMsg nextStatus visibleAt now, o = .fail orgID r.id errMsg nextStatus visibleAt now →
      r.attempts < r.maxAttempts) : InBudget r' := by
  cases h with
  | @claim orgID id workerID now _ claimable =>
    refine ⟨ok.budget, ?_, fun hs => by cases hs⟩
    have left : r.attempts < r.maxAttempts := by
      by_cases hs : r.status = .pending
      · exact ok.pending hs
      · refine takeover ?_
        simp only [takesOver, Bool.and_eq_true, decide_eq_true_eq]
        refine ⟨claimable, ?_⟩
        simp only [Tasks.claimable, Bool.and_eq_true, Bool.or_eq_true, decide_eq_true_eq] at claimable
        rcases claimable.1.2 with pending | ⟨processing, -⟩
        · exact absurd pending hs
        · exact processing
    exact Int.add_one_le_of_lt left
  | heartbeat => exact ⟨ok.budget, ok.attempts, ok.pending⟩
  | complete => exact ⟨ok.budget, ok.attempts, fun hs => by cases hs⟩
  | fail processing =>
    simp only [Tasks.processing, Bool.and_eq_true, decide_eq_true_eq] at processing
    obtain ⟨⟨-, rfl⟩, -⟩ := processing
    exact ⟨ok.budget, ok.attempts, fun _ => retried _ _ _ _ _ rfl⟩
  | deadLetter => exact ⟨ok.budget, ok.attempts, fun hs => by cases hs⟩
  | reclaim expired => exact ⟨ok.budget, ok.attempts, fun _ => takeover expired⟩
  | requeue => exact ⟨ok.budget, Int.le_of_lt ok.budget, fun _ => ok.budget⟩
  | cancel => exact ⟨ok.budget, ok.attempts, fun hs => by cases hs⟩
  | softDelete => exact ⟨ok.budget, ok.attempts, ok.pending⟩
  | markDispatched => exact ⟨ok.budget, ok.attempts, ok.pending⟩

theorem leaseRules_sound (budget : Prop) : (leaseRules budget).Sound := by
  intro pid c o env inv may granted
  refine ⟨task_ids_kept inv.ids env o, fun hb r hr => ?_⟩
  rcases task_origin inv.ids hr with ⟨t, ht, rfl | ⟨o', rfl, change⟩⟩ | ⟨t, rfl, rfl⟩
  · exact inv.budget hb r ht
  · refine change.inBudget (inv.budget hb t ht) (fun takeover => (granted t ht takeover).2 hb) ?_
    rintro orgID errMsg nextStatus visibleAt now rfl
    exact may.2 hb t ht rfl
  · have new : NewTask t := may.2 hb
    refine ⟨new.budget, ?_, fun _ => ?_⟩
    · rw [show (Tasks.inserted t).attempts = 0 from new.attempts]
      exact Int.le_of_lt new.budget
    · rw [show (Tasks.inserted t).attempts = 0 from new.attempts]
      exact new.budget

/-! ### Holding a claim -/

/-- The process claimed the task `t`, and nobody released it. -/
structure Claims (pid : Nat) (t : Task) (c : Config machine) : Prop where
  claimant : claimant t.id c.trace = some pid
  row : ∃ r ∈ c.world.tasks, r.id = t.id ∧ r.status = .processing ∧ r.attempts = t.attempts ∧
    r.maxAttempts = t.maxAttempts

section Holding
variable {budget : Prop} {pid actor : Nat} {c : Config machine} {o : Op} {env : Env} {t : Task}

/-- A claim that is answered was of a row that could be claimed. -/
theorem claimed_row {orgID id : UUID} {workerID : String} {now : Time}
    (ok : (Op.exec env (.task (.claimForProcessing orgID id workerID now)) c.world).1 = .ok t) :
    ∃ r ∈ c.world.tasks, Tasks.claimable orgID id now env.locked r = true ∧ t = r.markProcessing workerID now := by
  have run := Op.exec_ok ok
  rw [run] at ok
  simp only [Op.run, TaskOp.run, Tasks.claimForProcessing] at ok
  split at ok
  · cases ok
  · rename_i r found
    cases ok
    exact ⟨r, List.mem_of_find?_eq_some found, List.find?_some found, rfl⟩

theorem reclaimed_rows {orgID : UUID} {queue : String} {now : Time} {limit : Nat} {found : List Task}
    (ok : (Op.exec env (.task (.reclaimExpired orgID queue now limit)) c.world).1 = .ok found) :
    ∀ r ∈ found, r ∈ c.world.tasks ∧ Tasks.expired orgID queue now env.locked r = true := by
  have run := Op.exec_ok ok
  rw [run] at ok
  cases ok
  exact fun r hr => List.mem_filter.1 (Table.mem_of_mem_firstBy hr)

/-- Only a takeover and a result release a claim. -/
theorem Claims.keep (h : Claims pid t c) (inv : LeaseInv budget c) (granted : (leaseRules budget).granted pid c o env)
    (other : resultOf o ≠ some t.id) : Claims pid t (c.after actor env o) := by
  obtain ⟨r, hr, hid, processing, attempts, maxAttempts⟩ := h.row
  have mine : takesOver env o r = true → False := fun takeover => (granted r hr takeover).1 (hid ▸ h.claimant)
  have same : ∀ q ∈ c.world.tasks, q.id = t.id → q = r := fun q hq he => Table.eq_of_key inv.ids hq hr (he.trans hid.symm)
  constructor
  · have claims : claimOf o (Op.exec env o c.world).1 ≠ some t.id := by
      intro he
      unfold claimOf at he
      split at he
      · rename_i orgID id workerID now _ ok
        cases he
        obtain ⟨q, hq, claimable, -⟩ := claimed_row ok
        have := claimable
        simp only [Tasks.claimable, Bool.and_eq_true, decide_eq_true_eq] at this
        obtain rfl := same q hq this.1.1.1.1.2
        exact mine (by simp [takesOver, claimable, processing])
      · cases he
    have reclaims : t.id ∉ reclaimsOf o (Op.exec env o c.world).1 := by
      intro hm
      unfold reclaimsOf at hm
      split at hm
      · rename_i orgID queue now limit found ok
        obtain ⟨q, hq, he⟩ := List.mem_map.1 hm
        obtain ⟨hq, expired⟩ := reclaimed_rows ok q hq
        obtain rfl := same q hq he
        exact mine expired
      · cases hm
    show Windylane.claimant t.id (_ :: c.trace) = some pid
    rw [Windylane.claimant, if_neg claims, if_neg (fun h => h.elim other reclaims)]
    exact h.claimant
  · obtain ⟨r', hr', rfl | ⟨o', rfl, change⟩⟩ := task_moves inv.ids hr env o
    · exact ⟨r', hr', hid, processing, attempts, maxAttempts⟩
    · cases change with
      | claim claimable => exact (mine (by simp [takesOver, claimable, processing])).elim
      | heartbeat => exact ⟨_, hr', hid, processing, attempts, maxAttempts⟩
      | complete h | fail h | deadLetter h =>
        simp only [Tasks.processing, Bool.and_eq_true, decide_eq_true_eq] at h
        exact absurd (by rw [← hid, h.1.2]; rfl) other
      | reclaim expired => exact (mine expired).elim
      | requeue _ _ ended => simp [processing] at ended
      | cancel _ _ pending => simp [processing] at pending
      | softDelete _ _ ended => simp [processing, TaskStatus.terminal] at ended
      | markDispatched _ _ pending => simp [processing] at pending

/-- A claim that is answered is held. -/
theorem Claims.won {orgID id : UUID} {workerID : String} {now : Time} (inv : LeaseInv budget c)
    (ok : (Op.exec env (.task (.claimForProcessing orgID id workerID now)) c.world).1 = .ok t) :
    Claims pid t (c.after pid env (.task (.claimForProcessing orgID id workerID now))) := by
  obtain ⟨r, hr, claimable, rfl⟩ := claimed_row ok
  simp only [Tasks.claimable, Bool.and_eq_true, decide_eq_true_eq] at claimable
  obtain ⟨⟨⟨⟨⟨org, rfl⟩, -⟩, -⟩, -⟩, -⟩ := claimable
  constructor
  · show Windylane.claimant _ (_ :: c.trace) = some pid
    rw [Windylane.claimant, if_pos]
    show claimOf _ (Op.exec env _ c.world).1 = _
    rw [ok]
    rfl
  · refine ⟨Tasks.claimed (r.markProcessing workerID now) now r, ?_, rfl, rfl, rfl, rfl⟩
    have run := Op.exec_ok ok
    rw [run] at ok
    rw [Config.after_world, show (machine.exec env _ c.world).2 = _ from congrArg Prod.snd run]
    simp only [Op.run, TaskOp.run, Tasks.claimForProcessing] at ok ⊢
    split at ok
    · cases ok
    · rename_i q found
      have hq : q.id = r.id := by simpa [Task.markProcessing] using congrArg Task.id (Except.ok.inj ok)
      obtain rfl := Table.eq_of_key inv.ids (List.mem_of_find?_eq_some found) hr hq
      exact Table.mem_update.2 ⟨q, hr, by simp [org, Task.markProcessing]⟩

end Holding

/-! ### The programs -/

abbrev leaseTerms (budget : Prop) (pid : Nat) : Terms machine := (leaseRules budget).terms (fun _ _ => True) pid

/-- Everything but claiming tasks and storing their results. -/
abbrev Footprint.unresulting (budget : Prop) : Footprint where
  runs := True
  workflows := True
  endpoints := True
  results := False
  sends := True
  deliveries := True
  create := fun t => budget → NewTask t
  deliver := fun _ => True

section Walk
variable {budget : Prop} {pid : Nat} {c : Config machine} {t : Task} {α : Type}
  {Q : Except Err α → Config machine → Prop}

theorem unresulting_may {o : Op} (ho : o.within (.unresulting budget)) :
    (leaseRules budget).may pid c o ∧ resultOf o = none := by
  cases o with
  | task o =>
    cases o with
    | claimForProcessing | complete | fail | moveToDeadLetter => exact ho.elim
    | create t => exact ⟨⟨nofun, ho⟩, rfl⟩
    | _ => exact ⟨⟨nofun, fun _ => trivial⟩, rfl⟩
  | _ => exact ⟨⟨nofun, fun _ => trivial⟩, rfl⟩

/-- Others leave a claim alone. -/
theorem Claims.other (h : Claims pid t c) {c' : Config machine} (step : (leaseRules budget).Other pid c c') :
    Claims pid t c' := by
  cases step with
  | step other o env ne inv may granted =>
    refine h.keep inv granted fun result => ne ?_
    exact Option.some.inj ((may.1 t.id result).symm.trans h.claimant)

theorem wp_quiet {p : Script α} (calls : p.Calls (Op.within (.unresulting budget))) (h : Claims pid t c) :
    wp (leaseTerms budget pid) p (fun _ c' => Claims pid t c') c := by
  refine wp_calls (fun _ _ step h => h.other step) (fun o ho c env inv h granted => ?_) h calls
  obtain ⟨may, result⟩ := unresulting_may ho
  exact ⟨may, trivial, h.keep inv granted (by simp [result])⟩

theorem wp_free {p : Script α} (calls : p.Calls (Op.within (.unresulting budget))) :
    wp (leaseTerms budget pid) p (fun _ _ => True) c :=
  wp_calls_lasting (lasting_const True) (fun _ ho _ _ _ => ⟨(unresulting_may ho).1, trivial⟩) trivial calls

/-- A call while a claim is held. -/
theorem wp_held {o : Op} {k : machine.Answer o → Script α} (ho : o.within (.unresulting budget)) (h : Claims pid t c)
    (hk : ∀ r c', LeaseInv budget c' → Claims pid t c' → wp (leaseTerms budget pid) (k r) Q c') :
    wp (leaseTerms budget pid) (.call o k) Q c := by
  refine wp_call fun c' hr inv env granted => ?_
  obtain ⟨may, result⟩ : (leaseRules budget).may pid c' o ∧ resultOf o = none := unresulting_may ho
  refine ⟨may, trivial, fun inv' => hk _ _ inv' ?_⟩
  exact (stable (fun _ _ step h => Claims.other h step) hr h).keep inv granted (by simp [result])

/-- The result of a task that is claimed. -/
theorem wp_result {o : TaskOp} {k : machine.Answer (.task o) → Script α} (h : Claims pid t c)
    (result : resultOf (.task o) = some t.id) (created : ∀ t, o ≠ .create t)
    (left : ∀ orgID id errMsg nextStatus visibleAt now, o = .fail orgID id errMsg nextStatus visibleAt now →
      t.attempts < t.maxAttempts)
    (hk : ∀ r, (k r).Calls (Op.within (.unresulting budget))) :
    wp (leaseTerms budget pid) (.call (.task o) k) (fun _ _ => True) c := by
  refine wp_call fun c' hr inv env granted => ⟨⟨fun id he => ?_, fun _ => ?_⟩, trivial, fun _ => wp_free (hk _)⟩
  · have held : Claims pid t c' := stable (fun _ _ step h => Claims.other h step) hr h
    rw [result] at he
    cases he
    exact held.claimant
  · obtain ⟨row, hrow, hid, -, attempts, maxAttempts⟩ : ∃ r ∈ c'.world.tasks, r.id = t.id ∧ r.status = .processing ∧
        r.attempts = t.attempts ∧ r.maxAttempts = t.maxAttempts :=
      (stable (fun _ _ step h => Claims.other h step) hr h : Claims pid t c').row
    cases o with
    | create t => exact absurd rfl (created t)
    | fail orgID id errMsg nextStatus visibleAt now =>
      intro r hr he
      cases result
      obtain rfl := Table.eq_of_key inv.ids hr hrow (he.trans hid.symm)
      rw [attempts, maxAttempts]
      exact left _ _ _ _ _ _ rfl
    | _ => trivial

variable (h : Host)

theorem events_quiet (eventType : WebhookEventType) (task : Task) :
    (publishTaskEvent h eventType task).Calls (Op.within (.unresulting budget)) :=
  publishTaskEvent_calls (fun _ _ => trivial) h eventType task

omit h in
theorem record_quiet (event : NewMetricEventInput) : (record event).Calls (Op.within (.unresulting budget)) :=
  ⟨trivial, fun answer => by cases answer <;> trivial⟩

theorem handleFailure_lease (claims : Claims pid t c) (execErr : String) (now : Time) :
    wp (leaseTerms budget pid) (handleFailure h t execErr now) (fun _ _ => True) c := by
  unfold handleFailure
  simp only
  split
  · simp only [attempt, call_bind, ret_bind]
    refine wp_result claims rfl (fun _ => by simp) (fun _ _ _ _ _ _ he => by cases he) fun answer => ?_
    cases answer with
    | error e => trivial
    | ok u =>
      refine Calls.bind (record_quiet _) fun _ => Calls.bind (record_quiet _) fun _ => ?_
      refine Calls.bind (events_quiet h _ _) fun _ => ?_
      exact ⟨trivial, fun _ => trivial⟩
  · rename_i exhausted
    have left : t.attempts < t.maxAttempts := by simpa [Task.isExhausted] using exhausted
    simp only [attempt, call_bind, ret_bind]
    refine wp_result claims rfl (fun _ => by simp) (fun _ _ _ _ _ _ _ => left) fun answer => ?_
    cases answer with
    | error e => trivial
    | ok u =>
      refine Calls.bind (record_quiet _) fun _ => Calls.bind (record_quiet _) fun _ => ?_
      refine Calls.bind (events_quiet h _ _) fun _ => ?_
      refine ⟨trivial, fun answer => ?_⟩
      cases answer with
      | error e => trivial
      | ok u => exact ⟨trivial, fun _ => trivial⟩

theorem execute_lease (claims : Claims pid t c) :
    wp (leaseTerms budget pid) (execute h t) (fun _ _ => True) c := by
  refine wp_held trivial claims fun failed c' _ claims => ?_
  cases failed with
  | error e => exact fun _ _ _ => trivial
  | ok failed =>
    refine wp_held trivial claims fun now c' _ claims => ?_
    cases now with
    | error e => exact fun _ _ _ => trivial
    | ok now =>
      cases failed with
      | some execErr => exact handleFailure_lease h claims execErr now
      | none =>
        simp only [attempt, ret_bind, call_bind]
        refine wp_result claims rfl (fun _ => by simp) (fun _ _ _ _ _ _ he => by cases he) fun answer => ?_
        cases answer with
        | error e => trivial
        | ok u =>
          refine Calls.bind (record_quiet _) fun _ => Calls.bind (events_quiet h _ _) fun _ => ?_
          exact ⟨trivial, fun _ => trivial⟩

theorem process_lease (orgID : UUID) (queue workerID : String) (taskID : UUID) :
    wp (leaseTerms budget pid) (process h orgID queue workerID taskID) (fun _ _ => True) c := by
  have hK : (leaseRules budget).Lasting pid fun _ => True := lasting_const True
  refine wp_perform hK trivial (fun _ _ _ => ⟨⟨nofun, fun _ => trivial⟩, trivial⟩) (fun _ _ _ _ => trivial) ?_
  intro c' env now _ _ _ _ _ _
  refine wp_attempt hK trivial (fun _ _ _ => ⟨⟨nofun, fun _ => trivial⟩, trivial⟩) fun c' env inv _ _ inv' _ => ?_
  split
  · exact wp_free ⟨trivial, fun _ => trivial⟩
  · rename_i task ok
    have claims : Claims pid task (c'.after pid env (.task (.claimForProcessing orgID taskID workerID now))) :=
      Claims.won inv ok
    have published : (publishProcessingEvent h task).Calls (Op.within (.unresulting budget)) := by
      refine Calls.bind ⟨trivial, fun answer => by cases answer <;> trivial⟩ fun now => ?_
      exact Calls.bind (record_quiet _) fun _ => Calls.bind (events_quiet h _ _) fun _ => trivial
    refine wp_seq lawful inv' (wp_quiet published claims) (fun _ c' inv claims => ?_) fun _ _ _ _ => trivial
    exact wp_seq lawful inv (execute_lease h claims) (fun _ _ _ _ _ _ _ => trivial) fun _ _ _ _ => trivial

theorem dispatch_lease (orgID : UUID) (queue workerID : String) :
    wp (leaseTerms budget pid) (dispatch h orgID queue workerID) (fun _ _ => True) c := by
  refine wp_attempt (lasting_const True) trivial (fun _ _ _ => ⟨⟨nofun, fun _ => trivial⟩, trivial⟩) ?_
  intro c' env _ _ _ _ _
  split
  · exact fun _ _ _ => trivial
  · exact process_lease h orgID queue workerID _

/-- With `budget`, tasks are requested with attempts. -/
theorem fits_unresulting {request : Request} (other : ∀ orgID queue workerID, request ≠ .dispatch orgID queue workerID)
    (requested : budget → ∀ input, request = .createTask input → 0 ≤ input.maxRetries) :
    request.Fits (.unresulting budget) where
  runs := fun _ => trivial
  workflows := fun _ _ => trivial
  endpoints := fun _ _ => trivial
  results := fun _ _ _ he => other _ _ _ he
  sends := fun _ => trivial
  deliveries := fun _ => trivial
  requested := fun input he _ _ _ _ hb => requestedTask_new (requested hb input he) _ _ _ _
  dispatched := fun _ _ new _ => new
  events := fun _ _ => trivial
  posts := fun _ _ _ _ _ => trivial

theorem body_lease {request : Request} (inv : LeaseInv budget c)
    (requested : budget → ∀ input, request = .createTask input → 0 ≤ input.maxRetries) :
    wp (leaseTerms budget pid) (body h request) (fun _ _ => True) c := by
  by_cases worker : ∃ orgID queue workerID, request = .dispatch orgID queue workerID
  · obtain ⟨orgID, queue, workerID, rfl⟩ := worker
    exact wp_seq lawful inv (dispatch_lease h orgID queue workerID) (fun _ _ _ _ _ _ _ => trivial) fun _ _ _ _ => trivial
  · exact wp_free (body_calls h (fits_unresulting (fun _ _ _ he => worker ⟨_, _, _, he⟩) requested))

end Walk

/-! ### Runs -/

section Runs
variable {h : Host} {w : World} {s : State} {allow : State → Action machine Request → Prop}

/-- The worker of a claim that is taken over does not run any more. -/
def Abandoned (s : State) (r : Task) : Prop :=
  ∀ owner p, claimant r.id s.config.trace = some owner → s.procs[owner]? = some p → p.alive = false

/-- In every run results are stored by claimants, and with `budget` the attempts stay within it. -/
theorem leases_run (budget : Prop) (fresh : w.Fresh)
    (takeover : ∀ s pid env o, allow s (.step pid env) → s.Calling pid o → ∀ r ∈ s.config.world.tasks,
      takesOver env o r = true → Abandoned s r ∧ (budget → r.attempts < r.maxAttempts))
    (requested : budget → ∀ s input, allow s (.spawn (.createTask input)) → 0 ≤ input.maxRetries)
    (reach : Reachable h allow w s) :
    LeaseInv budget s.config ∧ s.Meets (fun _ pid => leaseTerms budget pid) fun _ _ _ _ => True := by
  refine System.Reach.disciplined (leaseRules_sound budget) (fun _ _ _ => True) _ ?_ ?_ ?_ reach
  · exact ⟨by simp [fresh.tasks], fun _ r hr => by simp [fresh.tasks] at hr⟩
  · intro s pid env o _ allowed calling _ other p hp alive r hr taken
    obtain ⟨abandoned, left⟩ := takeover s pid env o allowed calling r hr taken
    refine ⟨fun mine => ?_, left⟩
    rw [abandoned other p mine hp] at alive
    cases alive
  · intro s request _ allowed inv _
    exact body_lease h inv fun hb input he => requested hb s input (he ▸ allowed)

/-! ### Late results -/

/-- A task is created and claimed, its lease expires and is reclaimed, another worker claims it, and the first worker
    comes back with its result. -/
def lateRun : List (Action machine Request) :=
  [.spawn (.createTask sampleTask)] ++ steps 0 0 (idsFrom 100 14) ++
    [.spawn (.dispatch ⟨1⟩ "jobs" "a")] ++ steps 1 0 (idsFrom 200 3) ++
    [.spawn (.reclaim ⟨1⟩ "jobs")] ++ steps 2 (seconds 31) (idsFrom 300 5) ++
    [.spawn (.dispatch ⟨1⟩ "jobs" "b")] ++ steps 3 (seconds 31) (idsFrom 400 3) ++
    steps 1 (seconds 31) (idsFrom 500 5)

/-- The first worker completes the task under the second. -/
theorem lateRun_stored : ∃ s t r r', (System.init gateWorld).run (body sampleHost) lateRun = some s ∧
    s.Calling 1 (.task (.complete ⟨1⟩ ⟨102⟩ (seconds 31))) ∧ claimant ⟨102⟩ s.config.trace = some 3 ∧
    s.next (body sampleHost) (.step 1 (sampleEnv (seconds 31) ⟨600⟩)) = some t ∧
    s.config.world.tasks = [r] ∧ t.config.world.tasks = [r'] ∧
    r.id = ⟨102⟩ ∧ r.status = .processing ∧ r.lockedBy = some "b" ∧ r'.status = .completed :=
  ⟨_, _, _, _, rfl, ⟨_, _, rfl⟩, rfl, rfl, rfl, rfl, rfl, rfl, rfl, rfl⟩

/-- A lease is taken over only from a worker that does not run any more. -/
def takeoversAbandoned (s : State) (a : Action machine Request) : Prop :=
  ∀ pid env o, a = .step pid env → s.Calling pid o → ∀ r ∈ s.config.world.tasks, takesOver env o r = true →
    Abandoned s r

/-- A result is stored by the process with the latest claim. -/
theorem results_fenced (fresh : w.Fresh) (reach : Reachable h takeoversAbandoned w s) {pid : Nat} {o : Op} {id : UUID}
    (calling : s.Calling pid o) (result : resultOf o = some id) : claimant id s.config.trace = some pid := by
  have takeover : ∀ s pid env o, takeoversAbandoned s (.step pid env) → s.Calling pid o → ∀ r ∈ s.config.world.tasks,
      takesOver env o r = true → Abandoned s r ∧ (False → r.attempts < r.maxAttempts) :=
    fun s pid env o allowed calling r hr takeover => ⟨allowed pid env o rfl calling r hr takeover, fun hb => hb.elim⟩
  obtain ⟨inv, meets⟩ := leases_run False fresh takeover (fun hb => hb.elim) reach
  obtain ⟨request, k, hp⟩ := calling
  have granted : (leaseRules False).granted pid s.config o (sampleEnv 0 ⟨0⟩) := by
    intro r _ takeover
    unfold resultOf at result
    split at result
    all_goals first
      | cases takeover
      | cases result
  exact (meets.may (leaseRules False) (fun _ _ _ => True) inv hp _ granted).1.1 id result

/-- The action takes no lease over. -/
def takesNothing (s : State) : Action machine Request → Bool
  | .step pid env =>
    match s.procs[pid]? with
    | some ⟨_, .call o _, true⟩ => s.config.world.tasks.all fun r => !takesOver env o r
    | _ => true
  | _ => true

theorem takesNothing_sound {s : State} {a : Action machine Request} (nothing : takesNothing s a = true) {pid : Nat}
    {env : Env} {o : Op} (ha : a = .step pid env) (calling : s.Calling pid o) {r : Task}
    (hr : r ∈ s.config.world.tasks) : takesOver env o r = false := by
  subst ha
  obtain ⟨request, k, hp⟩ := calling
  simp only [takesNothing, hp, List.all_eq_true, Bool.not_eq_true'] at nothing
  exact nothing r hr

/-- The first worker, before its lease expires. -/
def promptRun : List (Action machine Request) :=
  [.spawn (.createTask sampleTask)] ++ steps 0 0 (idsFrom 100 14) ++
    [.spawn (.dispatch ⟨1⟩ "jobs" "a")] ++ steps 1 0 (idsFrom 200 8)

theorem promptRun_fenced : ∃ s, System.runChecked (body sampleHost) takesNothing (System.init gateWorld) promptRun = some s ∧
    s.Calling 1 (.task (.complete ⟨1⟩ ⟨102⟩ 0)) ∧ claimant ⟨102⟩ s.config.trace = some 1 := by
  obtain ⟨s, run, calling⟩ : ∃ s, System.runChecked (body sampleHost) takesNothing (System.init gateWorld) promptRun =
      some s ∧ s.Calling 1 (.task (.complete ⟨1⟩ ⟨102⟩ 0)) := ⟨_, rfl, _, _, rfl⟩
  refine ⟨s, run, calling, results_fenced gateWorld_fresh (System.reach_of_checked (fun s a _ nothing => ?_) run) calling rfl⟩
  intro pid env o ha hcalling r hr takeover
  rw [takesNothing_sound nothing ha hcalling hr] at takeover
  cases takeover

/-! ### The retry budget -/

/-- Tasks are requested with attempts, and a lease is taken over only while attempts are left, from a worker that does
    not run any more. -/
def takeoversInBudget (s : State) (a : Action machine Request) : Prop :=
  (∀ input, a = .spawn (.createTask input) → 0 ≤ input.maxRetries) ∧
  ∀ pid env o, a = .step pid env → s.Calling pid o → ∀ r ∈ s.config.world.tasks, takesOver env o r = true →
    Abandoned s r ∧ r.isExhausted = false

/-- What a step does to a task whose attempts are spent: it is not claimed, and leaves its worker only completed or for
    the dead letters, from where it is requeued by hand. -/
structure Spent (r r' : Task) : Prop where
  id : r'.id = r.id
  attempts : r'.attempts = r.attempts ∨ r.status.terminal = true ∧ r'.attempts = 0
  status : r.status = .processing → r'.status = .processing ∨ r'.status = .completed ∨ r'.status = .deadLetter

theorem TaskChange.spent {env : Env} {o : TaskOp} {r r' : Task} (change : TaskChange env o r r') (ok : InBudget r)
    (spent : r.maxAttempts ≤ r.attempts) (takeover : takesOver env (.task o) r = false)
    (retried : ∀ orgID errMsg nextStatus visibleAt now, o = .fail orgID r.id errMsg nextStatus visibleAt now →
      r.attempts < r.maxAttempts) : Spent r r' := by
  cases change with
  | @claim orgID id workerID now _ claimable =>
    have := claimable
    simp only [Tasks.claimable, Bool.and_eq_true, Bool.or_eq_true, decide_eq_true_eq] at this
    rcases this.1.2 with pending | ⟨processing, -⟩
    · exact absurd (ok.pending pending) (Int.not_lt.2 spent)
    · simp [takesOver, claimable, processing] at takeover
  | heartbeat => exact ⟨rfl, Or.inl rfl, Or.inl⟩
  | complete => exact ⟨rfl, Or.inl rfl, fun _ => Or.inr (Or.inl rfl)⟩
  | fail processing =>
    simp only [Tasks.processing, Bool.and_eq_true, decide_eq_true_eq] at processing
    obtain ⟨⟨-, rfl⟩, -⟩ := processing
    exact absurd (retried _ _ _ _ _ rfl) (Int.not_lt.2 spent)
  | deadLetter => exact ⟨rfl, Or.inl rfl, fun _ => Or.inr (Or.inr rfl)⟩
  | reclaim expired => simp [takesOver, expired] at takeover
  | requeue _ _ ended =>
    refine ⟨rfl, Or.inr ⟨?_, rfl⟩, fun hs => ?_⟩
    · rcases ended with hs | hs | hs <;> rw [hs] <;> rfl
    · simp [hs] at ended
  | cancel _ _ pending => exact ⟨rfl, Or.inl rfl, fun hs => by simp [hs] at pending⟩
  | softDelete => exact ⟨rfl, Or.inl rfl, Or.inl⟩
  | markDispatched => exact ⟨rfl, Or.inl rfl, Or.inl⟩

theorem attempts_in_budget (fresh : w.Fresh) (reach : Reachable h takeoversInBudget w s) :
    (∀ r ∈ s.config.world.tasks, r.attempts ≤ r.maxAttempts ∧ (r.status = .pending → r.isExhausted = false)) ∧
      ∀ a t, takeoversInBudget s a → s.next (body h) a = some t → ∀ r ∈ s.config.world.tasks, r.isExhausted = true →
        ∃ r' ∈ t.config.world.tasks, Spent r r' := by
  have takeover : ∀ s pid env o, takeoversInBudget s (.step pid env) → s.Calling pid o → ∀ r ∈ s.config.world.tasks,
      takesOver env o r = true → Abandoned s r ∧ (True → r.attempts < r.maxAttempts) := by
    intro s pid env o allowed calling r hr takeover
    obtain ⟨abandoned, left⟩ := allowed.2 pid env o rfl calling r hr takeover
    exact ⟨abandoned, fun _ => by simpa [Task.isExhausted] using left⟩
  obtain ⟨inv, meets⟩ := leases_run True fresh takeover (fun _ s input allowed => allowed.1 input rfl) reach
  have same : ∀ r ∈ s.config.world.tasks, ∃ r' ∈ s.config.world.tasks, Spent r r' :=
    fun r hr => ⟨r, hr, rfl, Or.inl rfl, Or.inl⟩
  refine ⟨fun r hr => ⟨(inv.budget trivial r hr).attempts, fun pending => ?_⟩, fun a t allowed taken r hr spent => ?_⟩
  · simpa [Task.isExhausted] using (inv.budget trivial r hr).pending pending
  · rcases System.next_cases taken with ⟨request, -, rfl⟩ | ⟨pid, env, request, o, k, rfl, hp, rfl⟩ | ⟨pid, p, -, hp, rfl⟩
    · exact same r hr
    · have unspent : ∀ q ∈ s.config.world.tasks, takesOver env o q = true → Abandoned s q ∧ q.isExhausted = false :=
        allowed.2 pid env o rfl ⟨request, k, hp⟩
      have granted : (leaseRules True).granted pid s.config o env := by
        intro q hq takeover
        obtain ⟨abandoned, left⟩ := unspent q hq takeover
        exact ⟨fun mine => (by cases abandoned pid _ mine hp), fun _ => by simpa [Task.isExhausted] using left⟩
      have may := (meets.may (leaseRules True) (fun _ _ _ => True) inv hp env granted).1
      obtain ⟨r', hr', rfl | ⟨o', rfl, change⟩⟩ := task_moves inv.ids hr env o
      · exact ⟨r', hr', rfl, Or.inl rfl, Or.inl⟩
      · refine ⟨r', hr', change.spent (inv.budget trivial r hr) (by simpa [Task.isExhausted] using spent) ?_ ?_⟩
        · cases takeover : takesOver env (.task o') r with
          | false => rfl
          | true => rw [(unspent r hr takeover).2] at spent; cases spent
        · rintro orgID errMsg nextStatus visibleAt now rfl
          exact may.2 trivial r hr rfl
    · exact same r hr

/-- A task that may be attempted once is claimed twice. -/
theorem lateRun_attempts : ∃ s r, (System.init gateWorld).run (body sampleHost) lateRun = some s ∧
    s.config.world.tasks = [r] ∧ r.maxAttempts = 1 ∧ r.attempts = 2 :=
  ⟨_, _, rfl, rfl, rfl, rfl⟩

/-- Tasks are requested with attempts, and no lease is taken over. -/
def staysInBudget (s : State) (a : Action machine Request) : Bool :=
  takesNothing s a && match a with
    | .spawn (.createTask input) => 0 ≤ input.maxRetries
    | _ => true

theorem promptRun_attempts : ∃ s, System.runChecked (body sampleHost) staysInBudget (System.init gateWorld) promptRun =
      some s ∧ s.config.world.tasks.map (·.attempts) = [1] ∧
    (∀ r ∈ s.config.world.tasks, r.attempts ≤ r.maxAttempts ∧ (r.status = .pending → r.isExhausted = false)) ∧
      ∀ a t, takeoversInBudget s a → s.next (body sampleHost) a = some t → ∀ r ∈ s.config.world.tasks,
        r.isExhausted = true → ∃ r' ∈ t.config.world.tasks, Spent r r' := by
  obtain ⟨s, run, attempts⟩ : ∃ s, System.runChecked (body sampleHost) staysInBudget (System.init gateWorld) promptRun =
      some s ∧ s.config.world.tasks.map (·.attempts) = [1] := ⟨_, rfl, rfl⟩
  refine ⟨s, run, attempts, attempts_in_budget gateWorld_fresh (System.reach_of_checked (fun s a _ stays => ?_) run)⟩
  obtain ⟨nothing, requested⟩ := Bool.and_eq_true_iff.1 stays
  refine ⟨fun input ha => by subst ha; simpa using requested, fun pid env o ha calling r hr takeover => ?_⟩
  rw [takesNothing_sound nothing ha calling hr] at takeover
  cases takeover

end Runs

end Windylane
