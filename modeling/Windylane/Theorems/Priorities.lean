import Windylane.Lib.History
import Windylane.Theorems.Broker
import Windylane.Theorems.Footprints
import Windylane.Theorems.Tasks

/-! The priorities of messages. The hash of a queue has one entry for a message, however often the message is sent. An
    acknowledgement deletes the entry, so it must not happen while another copy waits; where it does not, every message
    has the priority of its task. -/

namespace Windylane

namespace Broker

/-! ### Entries -/

section Lookup
variable {m x : UUID} {score : Int} {set : List (UUID × Int)}

theorem lookup_zrem (ne : m ≠ x) : (zrem x set).lookup m = set.lookup m := by
  induction set with
  | nil => rfl
  | cons e rest ih =>
    obtain ⟨k, v⟩ := e
    by_cases same : k = x
    · have here : (m == k) = false := beq_false_of_ne (same ▸ ne)
      rw [List.lookup_cons, here]
      simpa [zrem, same] using ih
    · have kept : zrem x ((k, v) :: rest) = (k, v) :: zrem x rest := by simp [zrem, same]
      rw [kept, List.lookup_cons, List.lookup_cons, ih]

theorem lookup_zadd_self : (zadd m score set).lookup m = some score := by
  have gone : (set.filter (·.1 ≠ m)).lookup m = none := by
    refine List.lookup_eq_none_iff.2 fun e he => ?_
    have other := of_decide_eq_true (List.mem_filter.1 he).2
    exact bne_iff_ne.2 fun same => other same.symm
  rw [zadd, List.lookup_append, gone]
  simp

theorem lookup_zadd (ne : m ≠ x) : (zadd x score set).lookup m = set.lookup m := by
  have here : (m == x) = false := beq_false_of_ne ne
  have kept : (zrem x set).lookup m = set.lookup m := lookup_zrem ne
  rw [zrem] at kept
  rw [zadd, List.lookup_append, kept, List.lookup_cons, here]
  simp

end Lookup

/-- The message waits in one of the sets. -/
def Queued (q : Queue) (m : UUID) : Prop := m ∈ members q.pending ∨ m ∈ members q.processing ∨ m ∈ members q.delayed

instance (q : Queue) (m : UUID) : Decidable (Queued q m) :=
  inferInstanceAs (Decidable (m ∈ members q.pending ∨ m ∈ members q.processing ∨ m ∈ members q.delayed))

section Queued
variable {q : Queue} {m id : UUID} {priority : Int}

theorem push_queued (h : Queued (push q id priority) m) : m = id ∨ Queued q m := by
  rcases h with pending | other
  · exact (mem_members_zadd.1 pending).imp_right Or.inl
  · exact Or.inr (Or.inr other)

theorem promote_queued (h : Queued (promote q id) m) : m = id ∨ Queued q m := by
  rcases push_queued h with same | pending | processing | delayed
  · exact Or.inl same
  · exact Or.inr (Or.inl pending)
  · exact Or.inr (Or.inr (Or.inl processing))
  · exact Or.inr (Or.inr (Or.inr (mem_members_zrem.1 delayed).1))

theorem promoted_queued {due : List UUID} (h : Queued (due.foldl promote q) m) : m ∈ due ∨ Queued q m := by
  induction due generalizing q with
  | nil => exact Or.inr h
  | cons id rest ih =>
    rcases ih h with later | now
    · exact Or.inl (List.mem_cons_of_mem _ later)
    · exact (promote_queued now).imp_left fun same => List.mem_cons.2 (Or.inl same)

theorem promoted_priorities {due : List UUID} : (due.foldl promote q).priorities = q.priorities := by
  induction due generalizing q with
  | nil => rfl
  | cons id rest ih => exact ih

theorem dequeue_queued (h : Queued (dequeue q).2 m) : Queued q m := by
  unfold dequeue at h
  split at h
  · exact h
  · rename_i member score rest first
    have member_pending : member ∈ members q.pending := by
      have found := Table.mem_of_mem_firstBy (first ▸ List.mem_cons_self : (member, score) ∈ Table.firstBy before 1 q.pending)
      exact List.mem_map.2 ⟨_, found, rfl⟩
    rcases h with pending | processing | delayed
    · exact Or.inl (mem_members_zrem.1 pending).1
    · rcases mem_members_zadd.1 processing with rfl | before
      · exact Or.inl member_pending
      · exact Or.inr (Or.inl before)
    · exact Or.inr (Or.inr delayed)

theorem dequeue_priorities : (dequeue q).2.priorities = q.priorities := by
  unfold dequeue
  split <;> rfl

theorem nack_queued {delay : Duration} {now : Time} (h : Queued (nack id delay now q) m) : m = id ∨ Queued q m := by
  unfold nack at h
  split at h
  · rcases push_queued h with same | pending | processing | delayed
    · exact Or.inl same
    · exact Or.inr (Or.inl pending)
    · exact Or.inr (Or.inr (Or.inl (mem_members_zrem.1 processing).1))
    · exact Or.inr (Or.inr (Or.inr delayed))
  · rcases h with pending | processing | delayed
    · exact Or.inr (Or.inl pending)
    · exact Or.inr (Or.inr (Or.inl (mem_members_zrem.1 processing).1))
    · exact (mem_members_zadd.1 delayed).imp_right fun delayed => Or.inr (Or.inr delayed)

theorem nack_priorities {delay : Duration} {now : Time} : (nack id delay now q).priorities = q.priorities := by
  unfold nack
  split <;> rfl

theorem removed_queued {q' : Queue} (pending : q'.pending = zrem id q.pending)
    (processing : q'.processing = zrem id q.processing) (delayed : q'.delayed = zrem id q.delayed) (h : Queued q' m) :
    Queued q m ∧ m ≠ id := by
  unfold Queued at h
  rw [pending, processing, delayed] at h
  rcases h with here | here | here
  · exact ⟨Or.inl (mem_members_zrem.1 here).1, (mem_members_zrem.1 here).2⟩
  · exact ⟨Or.inr (Or.inl (mem_members_zrem.1 here).1), (mem_members_zrem.1 here).2⟩
  · exact ⟨Or.inr (Or.inr (mem_members_zrem.1 here).1), (mem_members_zrem.1 here).2⟩

end Queued
end Broker

open Broker

/-- A message is acknowledged while no other copy of it waits, and sent back while the queue still has it. -/
def BrokerOp.heldIn (q : Queue) : BrokerOp → Prop
  | .ack _ _ id => id ∉ members q.pending ∧ id ∉ members q.delayed
  | .nack _ _ id _ => Queued q id
  | _ => True

instance (q : Queue) : (o : BrokerOp) → Decidable (o.heldIn q)
  | .ack _ _ id => inferInstanceAs (Decidable (id ∉ members q.pending ∧ id ∉ members q.delayed))
  | .nack _ _ id _ => inferInstanceAs (Decidable (Queued q id))
  | .enqueue .. | .dequeue .. | .enqueueDelayed .. | .moveToDeadLetter .. | .promoteDueDelayed .. | .remove ..
  | .queueDepth .. => inferInstanceAs (Decidable True)

/-- A message that waits after a call was sent by it, or waited before with the same entry. -/
theorem BrokerOp.queued_cases {env : Env} {o : BrokerOp} {q : Queue} {m : UUID} (held : o.heldIn q)
    (h : Queued (o.runQueue env q).2 m) :
    (∃ priority, o.entering = some (m, priority) ∧
      (o.runQueue env q).2.priorities.lookup m = some (normalizePriority priority)) ∨
    Queued q m ∧ (o.runQueue env q).2.priorities.lookup m = q.priorities.lookup m := by
  cases o with
  | enqueue orgID queue id priority =>
    by_cases same : m = id
    · subst same
      exact Or.inl ⟨priority, rfl, lookup_zadd_self⟩
    · refine Or.inr ⟨?_, lookup_zadd same⟩
      exact (push_queued h).resolve_left same
  | enqueueDelayed orgID queue id priority delay =>
    by_cases same : m = id
    · subst same
      exact Or.inl ⟨priority, rfl, lookup_zadd_self⟩
    · refine Or.inr ⟨?_, lookup_zadd same⟩
      rcases h with pending | processing | delayed
      · exact Or.inl pending
      · exact Or.inr (Or.inl processing)
      · exact Or.inr (Or.inr ((mem_members_zadd.1 delayed).resolve_left same))
  | dequeue orgID queue =>
    rw [runQueue_dequeue] at h ⊢
    exact Or.inr ⟨dequeue_queued h, by rw [dequeue_priorities]⟩
  | ack orgID queue id =>
    have other : m ≠ id := by
      rintro rfl
      rcases h with pending | processing | delayed
      · exact held.1 pending
      · exact (mem_members_zrem.1 processing).2 rfl
      · exact held.2 delayed
    refine Or.inr ⟨?_, lookup_zrem other⟩
    rcases h with pending | processing | delayed
    · exact Or.inl pending
    · exact Or.inr (Or.inl (mem_members_zrem.1 processing).1)
    · exact Or.inr (Or.inr delayed)
  | nack orgID queue id delay =>
    refine Or.inr ⟨?_, congrArg (List.lookup m) nack_priorities⟩
    rcases nack_queued h with rfl | before
    · exact held
    · exact before
  | moveToDeadLetter orgID queue id =>
    obtain ⟨before, other⟩ := removed_queued rfl rfl rfl h
    exact Or.inr ⟨before, lookup_zrem other⟩
  | remove orgID queue id =>
    obtain ⟨before, other⟩ := removed_queued rfl rfl rfl h
    exact Or.inr ⟨before, lookup_zrem other⟩
  | promoteDueDelayed orgID queue =>
    refine Or.inr ⟨?_, congrArg (List.lookup m) promoted_priorities⟩
    rcases promoted_queued h with due | before
    · obtain ⟨e, he, rfl⟩ := List.mem_map.1 due
      exact Or.inr (Or.inr (List.mem_map.2 ⟨e, (List.mem_filter.1 (Table.mem_of_mem_firstBy he)).1, rfl⟩))
    · exact before
  | queueDepth orgID queue => exact Or.inr ⟨h, rfl⟩

/-! ### The programs -/

section Programs
open Conc Script Prog

-- the conditions on texts are not decided here
seal trimSpace

/-- The tasks that a call stored or read. -/
def shown : machine.Exchange → List Task
  | ⟨.task (.create t), .ok _⟩ | ⟨.task (.getByID _ _), .ok t⟩ => [t]
  | ⟨.task (.reclaimExpired _ _ _ _), .ok tasks⟩ | ⟨.task (.listUndispatchedPending _ _ _), .ok tasks⟩ => tasks
  | _ => []

/-- A message that is sent is that of a task that was stored or read before. -/
def Backed (past : List machine.Exchange) (o : Op) : Prop :=
  ∀ b id priority, o = .broker b → b.entering = some (id, priority) →
    ∃ c ∈ past, ∃ t ∈ shown c, t.id = id ∧ (t.orgID, t.queue) = b.scope ∧ t.priority = priority

/-- Everything but sending messages. -/
abbrev Footprint.unsending : Footprint where
  runs := True
  workflows := True
  endpoints := True
  results := True
  sends := True
  deliveries := True
  create := fun _ => True
  deliver := fun _ => True
  messages := fun o => o.entering = none

theorem backed_of_within (o : Op) (within : o.within Footprint.unsending) (past : List machine.Exchange) :
    Backed past o := by
  rintro b id priority rfl enters
  rw [show b.entering = none from within] at enters
  cases enters

theorem backed_enqueue {past : List machine.Exchange} {c : machine.Exchange} {t : Task} (hc : c ∈ past) (ht : t ∈ shown c) :
    Backed past (.broker (.enqueue t.orgID t.queue t.id t.priority)) := by
  rintro b id priority he enters
  cases he
  cases enters
  exact ⟨c, hc, t, ht, rfl, rfl, rfl⟩

theorem backed_enqueueDelayed {past : List machine.Exchange} {c : machine.Exchange} {t : Task} (hc : c ∈ past)
    (ht : t ∈ shown c) (delay : Duration) :
    Backed past (.broker (.enqueueDelayed t.orgID t.queue t.id t.priority delay)) := by
  rintro b id priority he enters
  cases he
  cases enters
  exact ⟨c, hc, t, ht, rfl, rfl, rfl⟩

/-- The property of programs whose calls are backed, once the calls of `A` are. -/
theorem closed_backed :
    Closed (S := machine.toSignature) (Op.within Footprint.unsending) (fun {_} p => p.Heeds Backed) :=
  closed_heeds backed_of_within

abbrev Backs {α : Type} (past : List machine.Exchange) (p : Script α) : Prop :=
  Walks (fun _ _ => True) Backed (fun _ _ => True) past p

section Steps
variable {α : Type} {past : List machine.Exchange}

theorem backs_sys {o : SysOp} {f : o.Resp → Script α} (rest : ∀ a, Backs (past ++ [⟨.sys o, .ok a⟩]) (f a)) :
    Backs past (Script.sys o >>= f) :=
  walks_perform (backed_of_within (.sys o) (by cases o <;> trivial) _) fun a _ => rest a

theorem backs_task {o : TaskOp} {f : Except Err o.Resp → Script α}
    (rest : ∀ r, Backs (past ++ [⟨.task o, r⟩]) (f r)) : Backs past (tryTask o >>= f) :=
  walks_attempt (backed_of_within (.task o) (by cases o <;> trivial) _) fun r _ => rest r

end Steps

theorem publishTaskEvent_backs (h : Host) (eventType : WebhookEventType) (task : Task) :
    (publishTaskEvent h eventType task).Heeds Backed :=
  (publishTaskEvent_calls (f := .unsending) (fun _ _ => trivial) h eventType task).heeds backed_of_within

theorem dispatchCreated_backs (h : Host) {task : Task} {past : List machine.Exchange} {c : machine.Exchange}
    (hc : c ∈ past) (ht : task ∈ shown c) : Backs past (dispatchCreated h task) := by
  refine backs_sys fun _ => (publishTaskEvent_backs h _ _ _).bind fun after _ grown _ => backs_sys fun now => ?_
  have there : c ∈ after := grown.subset (List.mem_append_left _ hc)
  have marked : ∀ past, Backs past (do
      match ← tryTask (.markDispatched task.orgID task.id now) with
      | .error e => pure ⟨some task, false, some e⟩
      | .ok _ => pure ⟨some task, false, none⟩ : Script TaskResult) := by
    refine fun past => backs_task fun r => ?_
    cases r <;> exact walks_ret trivial
  split
  · refine backs_sys fun later => walks_attempt (backed_enqueueDelayed ?_ ht _) fun r _ => ?_
    · exact List.mem_append_left _ (List.mem_append_left _ there)
    · cases r with
      | error e => exact walks_ret trivial
      | ok _ => exact marked _
  · refine walks_attempt (backed_enqueue (List.mem_append_left _ there) ht) fun r _ => ?_
    cases r with
    | error e => exact walks_ret trivial
    | ok _ => exact marked _

theorem createTask_backs (h : Host) (input : CreateTaskInput) : (createTask h input).Heeds Backed := by
  intro past
  unfold createTask
  split
  · exact walks_ret trivial
  · refine backs_task fun r => ?_
    split
    · exact walks_ret trivial
    · refine backs_sys fun now => backs_sys fun id => backs_task fun r => ?_
      split
      · exact dispatchCreated_backs h (List.mem_append_right _ (List.mem_singleton_self _)) (List.mem_singleton_self _)
      · refine backs_task fun r => ?_
        split <;> exact walks_ret trivial
      · exact walks_ret trivial
    · exact walks_ret trivial

theorem retryTask_backs (orgID id : UUID) : (retryTask orgID id).Heeds Backed := by
  intro past
  refine backs_task fun r => ?_
  cases r with
  | error e => exact walks_ret trivial
  | ok task =>
    refine backs_sys fun now => backs_task fun r => ?_
    cases r with
    | error e => exact walks_ret trivial
    | ok _ =>
      have read : (⟨.task (.getByID orgID id), .ok task⟩ : machine.Exchange) ∈
          past ++ [⟨.task (.getByID orgID id), .ok task⟩] ++ [⟨.sys .now, .ok now⟩] ++
            [⟨.task (.requeue orgID id now), .ok ()⟩] := by simp
      refine walks_attempt (backed_enqueue (t := task) read (List.mem_singleton_self task)) fun r _ => ?_
      cases r with
      | error e => exact walks_ret trivial
      | ok _ =>
        refine backs_task fun r => ?_
        cases r with
        | error e => exact walks_ret trivial
        | ok _ =>
          refine backs_task fun r => ?_
          cases r <;> exact walks_ret trivial

theorem redispatch_backs (orgID : UUID) (tasks : List Task) {past : List machine.Exchange} {c : machine.Exchange}
    (hc : c ∈ past) (ht : ∀ t ∈ tasks, t ∈ shown c) : Backs past (redispatch orgID tasks) := by
  induction tasks generalizing past with
  | nil => exact walks_ret trivial
  | cons task rest ih =>
    have later : ∀ t ∈ rest, t ∈ shown c := fun t h => ht t (List.mem_cons_of_mem _ h)
    refine walks_attempt (backed_enqueue hc (ht task List.mem_cons_self)) fun r _ => ?_
    cases r with
    | error e => exact ih (List.mem_append_left _ hc) later
    | ok _ =>
      refine backs_sys fun now => backs_task fun r => ?_
      exact ih (List.mem_append_left _ (List.mem_append_left _ (List.mem_append_left _ hc))) later

theorem reclaimTick_backs (orgID : UUID) (queue : String) : (reclaimTick orgID queue).Heeds Backed := by
  intro past
  refine backs_sys fun now => backs_task fun r => ?_
  cases r with
  | error e => exact walks_ret trivial
  | ok tasks => exact redispatch_backs orgID tasks (List.mem_append_right _ (List.mem_singleton_self _)) fun _ h => h

theorem reconciliationTick_backs (orgID : UUID) (queue : String) : (reconciliationTick orgID queue).Heeds Backed := by
  intro past
  refine backs_task fun r => ?_
  cases r with
  | error e => exact walks_ret trivial
  | ok tasks => exact redispatch_backs orgID tasks (List.mem_append_right _ (List.mem_singleton_self _)) fun _ h => h

/-- Every request sends messages of tasks that it stored or read. -/
theorem body_backs (h : Host) (request : Request) : (body h request).Heeds Backed := by
  cases sends : request.sending with
  | false =>
    refine (body_calls (f := .unsending) h ?_).heeds backed_of_within
    exact {
      runs := fun _ => trivial
      workflows := fun _ _ => trivial
      endpoints := fun _ _ => trivial
      results := fun _ _ _ _ => trivial
      sends := fun _ => trivial
      deliveries := fun _ => trivial
      requested := fun _ _ _ _ _ _ => trivial
      dispatched := fun _ _ _ => trivial
      events := fun _ _ => trivial
      posts := fun _ _ _ _ _ => trivial
      messages := fun _ quiet => quiet sends }
  | true =>
    by_cases workflow : request.workflow = true
    · refine workflowBody_in closed_backed (Op.within_of_advances trivial) h ?_ ?_ workflow fun _ _ => trivial
      · intro orgID executionID nodeID config input
        unfold dispatchWorkflowTask
        split
        · exact fun _ => walks_ret trivial
        · exact createTask_backs h _
      · intro execution node input
        exact (dispatchWorkflowWebhook_calls (f := .unsending) h _ _ _ fun _ _ => trivial).heeds backed_of_within
    · cases request with
      | createTask input => exact closed_backed.bind (createTask_backs h input) fun _ => closed_backed.ret _
      | retryTask orgID id => exact closed_backed.bind (retryTask_backs orgID id) fun _ => closed_backed.ret _
      | reclaim orgID queue => exact closed_backed.bind (reclaimTick_backs orgID queue) fun _ => closed_backed.ret _
      | reconciliation orgID queue =>
        exact closed_backed.bind (reconciliationTick_backs orgID queue) fun _ => closed_backed.ret _
      | _ => first | exact (workflow rfl).elim | cases sends

end Programs

/-! ### Runs -/

open Conc

/-- The row of the task, as far as its message goes. -/
structure SameMessage (row t : Task) : Prop where
  id : row.id = t.id
  orgID : row.orgID = t.orgID
  queue : row.queue = t.queue
  priority : row.priority = t.priority

theorem SameMessage.refl (t : Task) : SameMessage t t := ⟨rfl, rfl, rfl, rfl⟩

theorem SameMessage.trans {a b c : Task} (h : SameMessage a b) (h' : SameMessage b c) : SameMessage a c :=
  ⟨h.id.trans h'.id, h.orgID.trans h'.orgID, h.queue.trans h'.queue, h.priority.trans h'.priority⟩

section Rows
variable {w : World} {env : Env} {o : Op}

theorem message_kept (ids : (w.tasks.map (·.id)).Nodup) {t : Task} (ht : t ∈ w.tasks) (env : Env) (o : Op) :
    ∃ row ∈ (o.exec env w).2.tasks, SameMessage row t := by
  obtain ⟨row, hrow, rfl | ⟨o', -, change⟩⟩ := task_moves ids ht env o
  · exact ⟨row, hrow, .refl row⟩
  · exact ⟨row, hrow, change.id, change.orgID, change.queue, change.priority⟩

/-- A task that a call stored or read has a row. -/
theorem shown_row (ids : (w.tasks.map (·.id)).Nodup) {t : Task} (ht : t ∈ shown ⟨o, (o.exec env w).1⟩) :
    ∃ row ∈ (o.exec env w).2.tasks, SameMessage row t := by
  unfold shown at ht
  split at ht
  · rename_i t' answer he
    obtain ⟨rfl, ok⟩ := Sigma.mk.inj he
    have ok := eq_of_heq ok
    cases List.mem_singleton.1 ht
    have done := Op.exec_ok ok
    rw [done] at ok ⊢
    simp only [Op.run, TaskOp.run, Tasks.create] at ok ⊢
    split at ok
    · cases ok
    · rename_i free
      simp only [free]
      exact ⟨Tasks.inserted t, List.mem_append_right _ (List.mem_singleton_self _), rfl, rfl, rfl, rfl⟩
  · rename_i orgID id t' he
    obtain ⟨rfl, ok⟩ := Sigma.mk.inj he
    have ok := eq_of_heq ok
    cases List.mem_singleton.1 ht
    refine message_kept ids ?_ env _
    rw [Op.exec_ok ok] at ok
    simp only [Op.run, TaskOp.run, Tasks.getByID] at ok
    split at ok
    · cases ok
      exact List.mem_of_find?_eq_some ‹_›
    · cases ok
  · rename_i orgID queue now limit tasks he
    obtain ⟨rfl, ok⟩ := Sigma.mk.inj he
    have ok := eq_of_heq ok
    refine message_kept ids ?_ env _
    rw [Op.exec_ok ok] at ok
    cases ok
    exact (List.mem_filter.1 (Table.mem_of_mem_firstBy ht)).1
  · rename_i orgID queue limit tasks he
    obtain ⟨rfl, ok⟩ := Sigma.mk.inj he
    have ok := eq_of_heq ok
    refine message_kept ids ?_ env _
    rw [Op.exec_ok ok] at ok
    cases ok
    exact (List.mem_filter.1 (Table.mem_of_mem_firstBy ht)).1
  · cases ht

end Rows

/-- The message has an entry with the priority of its task. -/
def Entered (w : World) (scope : UUID × String) (m : UUID) : Prop :=
  ∃ row ∈ w.tasks, row.id = m ∧ (row.orgID, row.queue) = scope ∧
    (w.broker scope).priorities.lookup m = some (normalizePriority row.priority)

/-- A message is acknowledged while no other copy of it waits, and sent back while the queue still has it. -/
def HeldOnce (s : State) (a : Action machine Request) : Prop :=
  ∀ pid env o, a = .step pid env → s.Calling pid (.broker o) → o.heldIn (s.config.world.broker o.scope)

structure PrioritiesInv (c : Config machine) : Prop where
  ids : (c.world.tasks.map (·.id)).Nodup
  shown : ∀ e ∈ c.trace, ∀ t ∈ shown ⟨e.op, e.answer⟩, ∃ row ∈ c.world.tasks, SameMessage row t
  entered : ∀ scope m, Queued (c.world.broker scope) m → Entered c.world scope m

section Runs
variable {h : Host} {w : World} {s t : State}

/-- A call that does not touch the broker. -/
theorem Entered.kept {w : World} {env : Env} {o : Op} {scope : UUID × String} {m : UUID} (entered : Entered w scope m)
    (ids : (w.tasks.map (·.id)).Nodup) (same : (o.exec env w).2.broker scope = w.broker scope) :
    Entered (o.exec env w).2 scope m := by
  obtain ⟨row, hrow, target, there, entry⟩ := entered
  obtain ⟨row', hrow', kept⟩ := message_kept ids hrow env o
  refine ⟨row', hrow', kept.id.trans target, ?_, ?_⟩
  · rw [kept.orgID, kept.queue, there]
  · rw [same, kept.priority, entry]

theorem entered_step {env : Env} {o : Op} {c : Config machine} {past : List machine.Exchange} (inv : PrioritiesInv c)
    (backed : Backed past o) (traced : ∀ x ∈ past, ∃ e ∈ c.trace, x = ⟨e.op, e.answer⟩)
    (held : ∀ b, o = .broker b → b.heldIn (c.world.broker b.scope)) {scope : UUID × String} {m : UUID}
    (queued : Queued ((o.exec env c.world).2.broker scope) m) : Entered (o.exec env c.world).2 scope m := by
  by_cases touches : (o.exec env c.world).2.broker scope = c.world.broker scope
  · rw [touches] at queued
    exact (inv.entered scope m queued).kept inv.ids touches
  cases o with
  | broker b =>
    rcases Op.exec_world env (.broker b) c.world with lost | done
    · exact (touches (by rw [lost])).elim
    rw [done] at queued touches ⊢
    have here : scope = b.scope := by
      by_contra other
      exact touches (Function.update_of_ne other _ _)
    subst here
    have after : ((Op.broker b).run env c.world).2.broker b.scope = (b.runQueue env (c.world.broker b.scope)).2 :=
      Function.update_self ..
    rw [after] at queued
    rcases b.queued_cases (held b rfl) queued with ⟨priority, enters, entry⟩ | ⟨before, entry⟩
    · obtain ⟨x, hx, t, ht, same, there, rfl⟩ := backed b m priority rfl enters
      obtain ⟨e, he, rfl⟩ := traced x hx
      obtain ⟨row, hrow, row_same⟩ := inv.shown e he t ht
      refine ⟨row, hrow, row_same.id.trans same, ?_, ?_⟩
      · rw [row_same.orgID, row_same.queue, there]
      · rw [after, entry, row_same.priority]
    · obtain ⟨row, hrow, target, there, found⟩ := inv.entered b.scope m before
      exact ⟨row, hrow, target, there, by rw [after, entry, found]⟩
  | sys o => exact (touches (congrArg (fun w : World => w.broker scope) (by simp))).elim
  | task o => exact (touches (Op.exec_frame (fun w => w.broker scope) rfl)).elim
  | worker o => exact (touches (Op.exec_frame (fun w => w.broker scope) rfl)).elim
  | hook o => exact (touches (Op.exec_frame (fun w => w.broker scope) rfl)).elim
  | canvas o => exact (touches (Op.exec_frame (fun w => w.broker scope) rfl)).elim

theorem priorities_step {a : Action machine Request} (reach : Reachable h HeldOnce w s) (inv : PrioritiesInv s.config)
    (held : HeldOnce s a) (taken : s.next (body h) a = some t) : PrioritiesInv t.config := by
  rcases System.next_cases taken with ⟨_, -, rfl⟩ | ⟨actor, env, request, o, k, rfl, ha, rfl⟩ | ⟨_, _, -, -, rfl⟩
  · exact inv
  · have along := reach.along (A := fun _ _ => True) (fun _ _ _ _ _ _ _ => trivial) (fun request => body_backs h request []) ha
    refine ⟨task_ids_kept inv.ids env o, fun e he t ht => ?_, fun scope m queued => ?_⟩
    · rw [Config.after_trace] at he
      rcases List.mem_cons.1 he with rfl | before
      · exact shown_row inv.ids ht
      · obtain ⟨row, hrow, same⟩ := inv.shown e before t ht
        obtain ⟨row', hrow', kept⟩ := message_kept inv.ids hrow env o
        exact ⟨row', hrow', kept.trans same⟩
    · refine entered_step inv along.1 (fun x hx => ?_) (fun b he => ?_) queued
      · obtain ⟨e, he, -, same⟩ := exists_of_mem_history hx
        exact ⟨e, he, same⟩
      · subst he
        exact held actor env b rfl ⟨request, k, ha⟩
  · exact inv

/-- Every message that waits in a queue has an entry in the hash of priorities, which is the priority of its task in the
    range of the buckets. -/
theorem priorities_kept (ids : (w.tasks.map (·.id)).Nodup)
    (start : ∀ scope m, Queued (w.broker scope) m → Entered w scope m) (reach : Reachable h HeldOnce w s)
    {orgID : UUID} {queue : String} {m : UUID} (queued : Queued (s.config.world.broker (orgID, queue)) m) :
    (∃ row ∈ s.config.world.tasks, row.id = m ∧ row.orgID = orgID ∧ row.queue = queue) ∧
      ∀ row ∈ s.config.world.tasks, row.id = m →
        (s.config.world.broker (orgID, queue)).priorities.lookup m = some (normalizePriority row.priority) := by
  have inv : PrioritiesInv s.config := by
    refine reach.invariant (fun s : State => PrioritiesInv s.config) ⟨ids, fun _ he => (by cases he), start⟩ ?_
    intro s t a reach inv held taken
    exact priorities_step reach inv held taken
  obtain ⟨row, hrow, target, there, entry⟩ := inv.entered (orgID, queue) m queued
  obtain ⟨org, line⟩ := Prod.mk.inj there
  refine ⟨⟨row, hrow, target, org, line⟩, fun row' hrow' target' => ?_⟩
  rw [Table.eq_of_key inv.ids hrow' hrow (target'.trans target.symm)]
  exact entry

end Runs

/-! ### Two copies of a message -/

def urgentTask : CreateTaskInput := { sampleTask with priority := 9, maxRetries := 3, backoffStrategy := "fixed" }

/-- The same as `steps`, with a job handler that fails. -/
def failingSteps (pid : Nat) (now : Time) (fresh : List (BitVec 128)) : List (Action machine Request) :=
  fresh.map fun id => .step pid { sampleEnv now ⟨id⟩ with handler := some "failed" }

/-- A worker takes the message of a task before its producer has marked the row, and reconciliation sends the message
    again. The worker claims the task and fails; another worker takes the second message and cannot claim the task. -/
def copiedRun : List (Action machine Request) :=
  [.spawn (.createTask urgentTask)] ++ steps 0 0 (idsFrom 100 13) ++
    [.spawn (.dispatch ⟨1⟩ "jobs" "a")] ++ steps 1 0 (idsFrom 200 1) ++
    [.spawn (.reconciliation ⟨1⟩ "jobs")] ++ steps 2 0 (idsFrom 300 4) ++
    failingSteps 1 0 (idsFrom 400 13) ++
    [.spawn (.dispatch ⟨1⟩ "jobs" "b")] ++ steps 3 0 (idsFrom 500 4)

/-- The acknowledgement of the second worker deletes the entry of the delayed message, which is sent again with the least
    priority. -/
theorem copiedRun_unprioritized : ∃ s t r, (System.init gateWorld).run (body sampleHost) copiedRun = some s ∧
    s.config.world.tasks = [r] ∧ r.id = ⟨102⟩ ∧ r.priority = 9 ∧
    members (s.config.world.broker (⟨1⟩, "jobs")).delayed = [⟨102⟩] ∧
    (s.config.world.broker (⟨1⟩, "jobs")).priorities.lookup ⟨102⟩ = none ∧
    s.run (body sampleHost) (.spawn (.promotion ⟨1⟩ "jobs") :: steps 4 (seconds 2) (idsFrom 600 1)) = some t ∧
    (t.config.world.broker (⟨1⟩, "jobs")).pending = [(⟨102⟩, 9 * priorityBucketSize + 3)] :=
  ⟨_, _, _, rfl, rfl, rfl, rfl, rfl, rfl, rfl, rfl⟩

/-- The condition on a step of a run. -/
def heldOnceStep (s : State) : Action machine Request → Bool
  | .step pid _ =>
    match s.procs[pid]? with
    | some ⟨_, .call (.broker o) _, true⟩ => o.heldIn (s.config.world.broker o.scope)
    | _ => true
  | _ => true

theorem heldOnce_of_step {s : State} {a : Action machine Request} (ok : heldOnceStep s a = true) : HeldOnce s a := by
  rintro pid env o rfl ⟨request, k, hp⟩
  simp only [heldOnceStep, hp, decide_eq_true_eq] at ok
  exact ok

/-- The worker fails with the only copy of the message, and the message is sent again when its delay is over. -/
def retriedRun : List (Action machine Request) :=
  [.spawn (.createTask urgentTask)] ++ steps 0 0 (idsFrom 100 14) ++
    [.spawn (.dispatch ⟨1⟩ "jobs" "a")] ++ failingSteps 1 0 (idsFrom 200 14) ++
    [.spawn (.promotion ⟨1⟩ "jobs")] ++ steps 2 (seconds 2) (idsFrom 300 1)

theorem retriedRun_prioritized : ∃ s, System.runChecked (body sampleHost) heldOnceStep (System.init gateWorld) retriedRun =
      some s ∧ (s.config.world.broker (⟨1⟩, "jobs")).pending = [(⟨102⟩, 2)] ∧
    ∀ row ∈ s.config.world.tasks, row.id = ⟨102⟩ →
      (s.config.world.broker (⟨1⟩, "jobs")).priorities.lookup ⟨102⟩ = some (normalizePriority row.priority) := by
  obtain ⟨s, run, pending⟩ : ∃ s, System.runChecked (body sampleHost) heldOnceStep (System.init gateWorld) retriedRun =
      some s ∧ (s.config.world.broker (⟨1⟩, "jobs")).pending = [(⟨102⟩, 2)] := ⟨_, rfl, rfl⟩
  have reach : Reachable sampleHost HeldOnce gateWorld s :=
    System.reach_of_checked (fun _ _ _ ok => heldOnce_of_step ok) run
  have queued : Queued (s.config.world.broker (⟨1⟩, "jobs")) ⟨102⟩ := by
    refine Or.inl ?_
    rw [pending]
    exact List.mem_singleton_self _
  have start : ∀ scope m, Queued (gateWorld.broker scope) m → Entered gateWorld scope m := by
    rintro scope m (h | h | h) <;> cases h
  have ids : (gateWorld.tasks.map (·.id)).Nodup := List.nodup_nil
  exact ⟨s, run, pending, (priorities_kept ids start reach queued).2⟩

end Windylane
