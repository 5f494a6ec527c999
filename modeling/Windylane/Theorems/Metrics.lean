import Windylane.Lib.Ledger
import Windylane.Service.Metrics
import Windylane.Theorems.Deliveries
import Windylane.Theorems.Keys
import Windylane.Theorems.Tasks

/-! The identity of metric events. A metric of a task or of a delivery is named by its type and by what it observes: that
    a row was created or cancelled, or one attempt on it. These are the marks of the ledger. A process observes what it
    did itself, and each mark is made once as long as no requeue and no manual retry sets a count of attempts back. -/

namespace Windylane

open Conc Script Prog

/-! ### What is observed -/

/-- What happened to a task or a delivery, under the names that the metrics give it. -/
inductive Mark where
  | created (id : UUID)
  | claimed (id : UUID) (attempts : Int)
  | cancelled (id : UUID)
  | delivery (id : UUID)
  | attempt (id : UUID) (count : Int)
deriving DecidableEq

/-- What a call did. -/
def marksOf : (o : Op) → machine.Answer o → List Mark
  | .task (.create t), .ok _ => [.created t.id]
  | .task (.claimForProcessing _ _ _ _), .ok t => [.claimed t.id t.attempts]
  | .task (.cancel _ _ _), .ok t => [.cancelled t.id]
  | .hook (.createWebhookDelivery d), .ok _ => [.delivery d.id]
  | .hook (.claimDueWebhookDeliveries _ _), .ok ds => ds.map fun d => .attempt d.id d.attemptCount
  | _, _ => []

/-- What a metric observes. -/
def NewMetricEventInput.mark (input : NewMetricEventInput) : Mark :=
  match input.eventType with
  | .taskIngested => .created input.resourceID
  | .taskCancelled => .cancelled input.resourceID
  | .deliveryCreated => .delivery input.resourceID
  | .deliveryStarted | .deliverySucceeded | .deliveryFailed | .deliveryRetryScheduled | .deliveryExhausted =>
    .attempt input.resourceID (input.attempt.getD 0)
  | _ => .claimed input.resourceID (input.attempt.getD 0)

/-- The metric of a task or a delivery that a call records. -/
def observes : Op → Option NewMetricEventInput
  | .sys (.record input) => if input.source = .taskCanvas then none else some input
  | _ => none

def metricLedger : Ledger machine Mark (MetricEventType × Mark) where
  marks := fun c => marksOf c.1 c.2
  notes := fun o => (observes o).map fun input => (input.eventType, input.mark)
  of := Prod.snd

/-! ### Marks are made once -/

/-- What a mark leaves in the tables. -/
def Mark.Stands (w : World) : Mark → Prop
  | .created id => ∃ r ∈ w.tasks, r.id = id
  | .claimed id attempts => ∃ r ∈ w.tasks, r.id = id ∧ attempts ≤ r.attempts
  | .cancelled id => ∃ r ∈ w.tasks, r.id = id ∧ r.status = .cancelled
  | .delivery id => ∃ d ∈ w.hooks.deliveries, d.id = id
  | .attempt id count => ∃ d ∈ w.hooks.deliveries, d.id = id ∧ count ≤ d.attemptCount

/-- A requeue that finds its task, or a manual retry that finds its delivery. -/
def Resets (w : World) : Op → Prop
  | .task (.requeue orgID id _) => ∃ r ∈ w.tasks, r.orgID = orgID ∧ r.id = id ∧
      (r.status = .failed ∨ r.status = .deadLetter ∨ r.status = .cancelled) ∧ r.deletedAt = none
  | .hook (.retryWebhookDelivery orgID id _) => ∃ d ∈ w.hooks.deliveries, d.orgID = orgID ∧ d.id = id ∧
      (d.status = .failed ∨ d.status = .retrying)
  | _ => False

section Rows
variable {env : Env} {o : Op} {w : World}

/-- Without a requeue, attempts only grow, and a cancelled task stays cancelled. -/
theorem TaskChange.progress {o : TaskOp} {r r' : Task} (change : TaskChange env o r r') (hr : r ∈ w.tasks)
    (keeps : ¬ Resets w (.task o)) :
    r.attempts ≤ r'.attempts ∧ (r.status = .cancelled → r'.status = .cancelled) := by
  cases change with
  | claim claimable =>
    refine ⟨by simp [Task.markProcessing], fun cancelled => ?_⟩
    simp [Tasks.claimable, cancelled] at claimable
  | heartbeat processing => exact ⟨Int.le_refl _, fun cancelled => cancelled⟩
  | complete processing | fail processing | deadLetter processing =>
    refine ⟨Int.le_refl _, fun cancelled => ?_⟩
    simp [Tasks.processing, cancelled] at processing
  | reclaim expired =>
    refine ⟨Int.le_refl _, fun cancelled => ?_⟩
    simp [Tasks.expired, cancelled] at expired
  | requeue org same ended there => exact (keeps ⟨r, hr, org, same, ended, there⟩).elim
  | cancel org same pending =>
    refine ⟨Int.le_refl _, fun cancelled => ?_⟩
    cases pending.symm.trans cancelled
  | softDelete | markDispatched => exact ⟨Int.le_refl _, fun cancelled => cancelled⟩

theorem task_progress (env : Env) (ids : (w.tasks.map (·.id)).Nodup) (keeps : ¬ Resets w o) {r : Task} (hr : r ∈ w.tasks) :
    ∃ r' ∈ (o.exec env w).2.tasks, r'.id = r.id ∧ r.attempts ≤ r'.attempts ∧
      (r.status = .cancelled → r'.status = .cancelled) := by
  obtain ⟨r', hr', rfl | ⟨o', rfl, change⟩⟩ := task_moves ids hr env o
  · exact ⟨r', hr', rfl, Int.le_refl _, fun cancelled => cancelled⟩
  · obtain ⟨attempts, status⟩ := change.progress hr keeps
    exact ⟨r', hr', change.id, attempts, status⟩

/-- Without a manual retry, the attempts of a delivery only grow: a result is stored with those of its claim. -/
theorem delivery_progress {reliable : Prop} {c : Config machine} {pid : Nat} (env : Env) (inv : HooksInv reliable c)
    (may : (deliveryRules reliable).may pid c o) (keeps : ¬ Resets c.world o) {r : WebhookDelivery}
    (hr : r ∈ deliveries c) :
    ∃ r' ∈ (o.exec env c.world).2.hooks.deliveries, r'.id = r.id ∧ r.attemptCount ≤ r'.attemptCount := by
  rcases o.exec_world env c.world with lost | done
  · rw [lost]
    exact ⟨r, hr, rfl, Int.le_refl _⟩
  rw [done]
  have update : ∀ (p : WebhookDelivery → Bool) (f : WebhookDelivery → WebhookDelivery), (∀ d, (f d).id = d.id) →
      (p r = true → r.attemptCount ≤ (f r).attemptCount) →
      ∃ r' ∈ Table.update p f (deliveries c), r'.id = r.id ∧ r.attemptCount ≤ r'.attemptCount := by
    intro p f id more
    refine ⟨_, Table.mem_update.2 ⟨r, hr, rfl⟩, ?_⟩
    split
    · exact ⟨id r, more ‹_›⟩
    · exact ⟨rfl, Int.le_refl _⟩
  cases o with
  | sys o | task o | worker o | broker o | canvas o => exact ⟨r, hr, rfl, Int.le_refl _⟩
  | hook o =>
    cases o with
    | getWebhookEndpoint | listWebhookEndpoints | listActiveWebhookEndpointsForEvent | getWebhookDelivery
    | listWebhookDeliveries => exact ⟨r, hr, rfl, Int.le_refl _⟩
    | createWebhookEndpoint | updateWebhookEndpoint | softDeleteWebhookEndpoint =>
      refine ⟨r, ?_, rfl, Int.le_refl _⟩
      simp only [Op.run]
      rw [HookOp.run_endpoint env _ rfl]
      exact hr
    | createWebhookDelivery d =>
      refine ⟨r, ?_, rfl, Int.le_refl _⟩
      simp only [Op.run, HookOp.run]
      rcases createWebhookDelivery_cases d c.world.hooks with same | ⟨-, -, added⟩
      · rw [same]
        exact hr
      · rw [added]
        exact List.mem_append_left _ hr
    | claimDueWebhookDeliveries now limit =>
      obtain ⟨taken, -, -, ran⟩ := claimDueWebhookDeliveries_cases inv.ids now limit env.locked
      simp only [Op.run, HookOp.run, ran]
      exact update _ _ (fun _ => rfl) fun _ => by simp [Webhooks.claimed]
    | updateWebhookDelivery d =>
      rcases updateWebhookDelivery_cases d c.world.hooks with ⟨ran, -⟩ | ⟨-, ran⟩
      · simp only [Op.run, HookOp.run, ran]
        exact ⟨r, hr, rfl, Int.le_refl _⟩
      · simp only [Op.run, HookOp.run, ran]
        refine update _ _ (fun _ => rfl) fun mine => ?_
        obtain ⟨q, hq, -, id, -, attempts, -⟩ := (show Finishes pid c d from may).row
        simp only [Bool.and_eq_true, decide_eq_true_eq] at mine
        rw [Table.eq_of_key inv.ids hr hq (mine.2.trans id.symm), attempts]
        exact Int.le_refl _
    | retryWebhookDelivery orgID id now =>
      refine ⟨r, ?_, rfl, Int.le_refl _⟩
      simp only [Op.run, HookOp.run, Webhooks.retryWebhookDelivery]
      split
      · rename_i d found
        have matched := List.find?_some found
        simp only [Bool.and_eq_true, Bool.or_eq_true, decide_eq_true_eq] at matched
        exact (keeps ⟨d, List.mem_of_find?_eq_some found, matched.1.1, matched.1.2, matched.2⟩).elim
      · exact hr

end Rows

/-- What a mark leaves is there for good. -/
theorem Mark.Stands.kept {reliable : Prop} {c : Config machine} {pid : Nat} {o : Op} {env : Env} {m : Mark}
    (stands : m.Stands c.world) (ids : (c.world.tasks.map (·.id)).Nodup) (inv : HooksInv reliable c)
    (may : (deliveryRules reliable).may pid c o) (keeps : ¬ Resets c.world o) : m.Stands (o.exec env c.world).2 := by
  cases m with
  | created id =>
    obtain ⟨r, hr, rfl⟩ := stands
    obtain ⟨r', hr', same, -⟩ := task_progress env ids keeps hr
    exact ⟨r', hr', same⟩
  | claimed id attempts =>
    obtain ⟨r, hr, rfl, le⟩ := stands
    obtain ⟨r', hr', same, grown, -⟩ := task_progress env ids keeps hr
    exact ⟨r', hr', same, Int.le_trans le grown⟩
  | cancelled id =>
    obtain ⟨r, hr, rfl, cancelled⟩ := stands
    obtain ⟨r', hr', same, -, stays⟩ := task_progress env ids keeps hr
    exact ⟨r', hr', same, stays cancelled⟩
  | delivery id =>
    obtain ⟨r, hr, rfl⟩ := stands
    obtain ⟨r', hr', same, -⟩ := delivery_progress env inv may keeps hr
    exact ⟨r', hr', same⟩
  | attempt id count =>
    obtain ⟨r, hr, rfl, le⟩ := stands
    obtain ⟨r', hr', same, grown⟩ := delivery_progress env inv may keeps hr
    exact ⟨r', hr', same, Int.le_trans le grown⟩

section Marks
variable {reliable : Prop} {c : Config machine} {env : Env}

theorem create_marks {t : Task} (ok : ((Op.task (.create t)).exec env c.world).1 = .ok ()) :
    ¬ (Mark.created t.id).Stands c.world ∧ (Mark.created t.id).Stands ((Op.task (.create t)).exec env c.world).2 := by
  have ran := Op.exec_ok ok
  rw [ran] at ok ⊢
  simp only [Op.run, TaskOp.run, Tasks.create] at ok ⊢
  split at ok
  · cases ok
  · rename_i free
    rw [if_neg free]
    refine ⟨?_, _, List.mem_append_right _ (List.mem_singleton_self _), rfl⟩
    rintro ⟨r, hr, same⟩
    exact free (List.any_eq_true.2 ⟨r, hr, by simp [Tasks.conflicts, same]⟩)

theorem claim_marks (ids : (c.world.tasks.map (·.id)).Nodup) {orgID id : UUID} {workerID : String} {now : Time} {t : Task}
    (ok : ((Op.task (.claimForProcessing orgID id workerID now)).exec env c.world).1 = .ok t) :
    ¬ (Mark.claimed t.id t.attempts).Stands c.world ∧
      (Mark.claimed t.id t.attempts).Stands ((Op.task (.claimForProcessing orgID id workerID now)).exec env c.world).2 := by
  have ran := Op.exec_ok ok
  rw [ran] at ok ⊢
  simp only [Op.run, TaskOp.run, Tasks.claimForProcessing] at ok ⊢
  cases found : c.world.tasks.find? (Tasks.claimable orgID id now env.locked) with
  | none =>
    rw [found] at ok
    cases ok
  | some r =>
    rw [found] at ok
    cases ok
    have hr := List.mem_of_find?_eq_some found
    have claimable := List.find?_some found
    simp only [Tasks.claimable, Bool.and_eq_true, decide_eq_true_eq] at claimable
    refine ⟨?_, ?_⟩
    · rintro ⟨q, hq, same, le⟩
      rw [Table.eq_of_key ids hq hr same] at le
      simp only [Task.markProcessing] at le
      omega
    · refine ⟨_, Table.mem_update.2 ⟨r, hr, rfl⟩, ?_⟩
      rw [if_pos (by simp [claimable.1.1.1.1.1, Task.markProcessing])]
      exact ⟨rfl, Int.le_refl _⟩

theorem cancel_marks (ids : (c.world.tasks.map (·.id)).Nodup) {orgID id : UUID} {now : Time} {t : Task}
    (ok : ((Op.task (.cancel orgID id now)).exec env c.world).1 = .ok t) :
    ¬ (Mark.cancelled t.id).Stands c.world ∧
      (Mark.cancelled t.id).Stands ((Op.task (.cancel orgID id now)).exec env c.world).2 := by
  have ran := Op.exec_ok ok
  rw [ran] at ok ⊢
  simp only [Op.run, TaskOp.run, Tasks.cancel] at ok ⊢
  split at ok
  · rename_i r found
    cases ok
    have hr := List.mem_of_find?_eq_some found
    have pending := List.find?_some found
    refine ⟨?_, ?_⟩
    · rintro ⟨q, hq, same, cancelled⟩
      rw [Table.eq_of_key ids hq hr same] at cancelled
      simp [cancelled] at pending
    · refine ⟨_, Table.mem_update.2 ⟨r, hr, rfl⟩, ?_⟩
      rw [if_pos pending]
      exact ⟨rfl, rfl⟩
  · cases ok

theorem createDelivery_marks {d : WebhookDelivery} (ok : ((Op.hook (.createWebhookDelivery d)).exec env c.world).1 = .ok ()) :
    ¬ (Mark.delivery d.id).Stands c.world ∧
      (Mark.delivery d.id).Stands ((Op.hook (.createWebhookDelivery d)).exec env c.world).2 := by
  have ran := Op.exec_ok ok
  rw [ran] at ok ⊢
  simp only [Op.run, HookOp.run, Webhooks.createWebhookDelivery] at ok ⊢
  repeat' split at ok
  all_goals try cases ok
  rename_i free known range
  rw [if_neg free, if_neg known, if_neg range]
  refine ⟨?_, d, List.mem_append_right _ (List.mem_singleton_self _), rfl⟩
  rintro ⟨r, hr, same⟩
  exact free (List.any_eq_true.2 ⟨r, hr, by simpa using same⟩)

theorem claimDue_marks (inv : HooksInv reliable c) {now : Time} {limit : Int} {ds : List WebhookDelivery}
    (ok : ((Op.hook (.claimDueWebhookDeliveries now limit)).exec env c.world).1 = .ok ds) {d : WebhookDelivery} (hd : d ∈ ds) :
    ¬ (Mark.attempt d.id d.attemptCount).Stands c.world ∧
      (Mark.attempt d.id d.attemptCount).Stands ((Op.hook (.claimDueWebhookDeliveries now limit)).exec env c.world).2 := by
  obtain ⟨taken, due, -, claimed⟩ := claimDueWebhookDeliveries_cases inv.ids now limit env.locked
  have ran := Op.exec_ok ok
  rw [ran] at ok
  simp only [Op.run, HookOp.run, claimed, Except.ok.injEq] at ok
  subst ok
  refine ⟨?_, d, ((inv.claimed 0 (by rw [ran]; simp only [Op.run, HookOp.run, claimed])).2 d hd).2, rfl, Int.le_refl _⟩
  obtain ⟨r, hr, rfl⟩ := List.mem_map.1 hd
  rintro ⟨q, hq, same, le⟩
  rw [Table.eq_of_key inv.ids hq (due r hr).1 same] at le
  simp only [Webhooks.claimed] at le
  omega

/-- What a call does was not done before, and leaves its mark. -/
theorem marksOf_new (env : Env) (ids : (c.world.tasks.map (·.id)).Nodup) (inv : HooksInv reliable c) (o : Op) :
    (marksOf o (o.exec env c.world).1).Nodup ∧
      ∀ m ∈ marksOf o (o.exec env c.world).1, ¬ m.Stands c.world ∧ m.Stands (o.exec env c.world).2 := by
  have single : ∀ {m : Mark}, ¬ m.Stands c.world ∧ m.Stands (o.exec env c.world).2 →
      [m].Nodup ∧ ∀ m' ∈ [m], ¬ m'.Stands c.world ∧ m'.Stands (o.exec env c.world).2 := fun new =>
    ⟨List.nodup_singleton _, fun m' hm => List.mem_singleton.1 hm ▸ new⟩
  cases answer : (o.exec env c.world).1 with
  | error e =>
    have none : marksOf o (.error e) = [] := by
      unfold marksOf
      split <;> first | rfl | (rename_i he; cases he)
    rw [none]
    exact ⟨List.nodup_nil, fun m hm => by cases hm⟩
  | ok a =>
    unfold marksOf
    split
    · exact single (create_marks answer)
    · rename_i ok
      cases ok
      exact single (claim_marks ids answer)
    · rename_i ok
      cases ok
      exact single (cancel_marks ids answer)
    · exact single (createDelivery_marks answer)
    · rename_i ok
      cases ok
      refine ⟨?_, fun m hm => ?_⟩
      · exact List.pairwise_map.2 ((List.pairwise_map.1 (inv.claimed 0 answer).1).imp fun ne same =>
          ne (Mark.attempt.inj same).1)
      · obtain ⟨d, hd, rfl⟩ := List.mem_map.1 hm
        exact claimDue_marks inv answer hd
    · exact ⟨List.nodup_nil, fun m hm => by cases hm⟩

end Marks

/-! ### Runs without resets -/

/-- No requeue takes a task, and no manual retry a delivery. -/
def NoReset (s : State) : Action machine Request → Prop
  | .step pid _ => ∀ o, s.Calling pid o → ¬ Resets s.config.world o
  | _ => True

structure TrailInv (c : Config machine) : Prop where
  ids : (c.world.tasks.map (·.id)).Nodup
  once : (metricLedger.trail c.trace).Nodup
  stands : ∀ m ∈ metricLedger.trail c.trace, m.Stands c.world

theorem TrailInv.step {reliable : Prop} {c : Config machine} {pid : Nat} {o : Op} (inv : TrailInv c)
    (hooks : HooksInv reliable c) (may : (deliveryRules reliable).may pid c o) (keeps : ¬ Resets c.world o) (env : Env) :
    TrailInv (c.after pid env o) := by
  obtain ⟨nodup, new⟩ := marksOf_new env inv.ids hooks o
  refine ⟨task_ids_kept inv.ids env o, ?_, fun m hm => ?_⟩
  · exact List.Nodup.append nodup inv.once fun m here before => (new m here).1 (inv.stands m before)
  · rcases List.mem_append.1 hm with here | before
    · exact (new m here).2
    · exact (inv.stands m before).kept inv.ids hooks may keeps

theorem trail_invariant {h : Host} {w : World} {s : State} (fresh : w.Fresh) (reach : Reachable h NoReset w s) :
    TrailInv s.config := by
  refine reach.invariant (fun s => TrailInv s.config) ?_ ?_
  · refine ⟨?_, List.nodup_nil, fun m hm => by cases hm⟩
    simp [System.init, fresh.tasks]
  · intro s t a prior inv allowed taken
    rcases System.next_cases taken with ⟨_, -, rfl⟩ | ⟨pid, env, request, o, k, rfl, hp, rfl⟩ | ⟨_, _, -, -, rfl⟩
    · exact inv
    · have calling : s.Calling pid o := ⟨request, k, hp⟩
      exact inv.step (deliveries_run False fresh (fun R => R.elim) prior).1 (deliveries_may fresh prior calling env)
        (allowed o calling) env
    · exact inv

/-! ### The programs -/

/-- What the transition key of a metric is. -/
def NewMetricEventInput.Keyed (input : NewMetricEventInput) : Prop :=
  input.transitionKey = match input.eventType with
    | .taskIngested | .deliveryCreated => "created"
    | .taskCancelled => "cancelled"
    | type => toString (input.attempt.getD 0) ++ ":" ++ type.text

/-- A metric of a task or a delivery observes what its process did, once, and its key says what. -/
def Noted (past : List machine.Exchange) (o : Op) : Prop :=
  metricLedger.Follows past o ∧ ∀ input, observes o = some input → input.Keyed

theorem noted_of_quiet {o : Op} (quiet : observes o = none) (past : List machine.Exchange) : Noted past o := by
  refine ⟨fun n hn => ?_, fun input hi => ?_⟩
  · simp [metricLedger, quiet] at hn
  · rw [quiet] at hi
    cases hi

theorem noted_record {input : NewMetricEventInput} {past : List machine.Exchange} {done : List (MetricEventType × Mark)}
    (keyed : input.Keyed) (fresh : (input.eventType, input.mark) ∉ done) (pending : metricLedger.Pending input.mark done past) :
    Noted past (.sys (.record input)) := by
  have only : ∀ input', observes (.sys (.record input)) = some input' → input' = input := by
    intro input' hi
    simp only [observes] at hi
    split at hi
    · cases hi
    · exact (Option.some.inj hi).symm
  refine ⟨fun n hn => ?_, fun input' hi => only input' hi ▸ keyed⟩
  obtain ⟨input', hi, rfl⟩ := Option.map_eq_some_iff.1 hn
  cases only input' hi
  exact ⟨done, fresh, pending⟩

/-- Everything but recording metrics of tasks and deliveries. -/
abbrev Footprint.unobserving : Footprint where
  runs := True
  workflows := True
  endpoints := True
  results := True
  sends := True
  deliveries := True
  create := fun _ => True
  deliver := fun _ => True
  records := fun input => input.source = .taskCanvas

theorem noted_of_within (o : Op) (within : o.within Footprint.unobserving) (past : List machine.Exchange) :
    Noted past o := by
  refine noted_of_quiet ?_ past
  cases o with
  | sys o =>
    cases o with
    | record input =>
      have canvas : input.source = .taskCanvas := within
      simp [observes, canvas]
    | _ => rfl
  | _ => rfl

theorem closed_noted :
    Closed (S := machine.toSignature) (Op.within Footprint.unobserving) (fun {_} p => p.Heeds Noted) :=
  closed_heeds noted_of_within

abbrev Observes {α : Type} (past : List machine.Exchange) (p : Script α) : Prop :=
  Walks (fun _ _ => True) Noted (fun _ _ => True) past p

section Steps
variable {α : Type} {past : List machine.Exchange}

theorem observes_attempt {o : Op} {f : machine.Answer o → Script α} (quiet : observes o = none)
    (rest : ∀ r, Observes (past ++ [⟨o, r⟩]) (f r)) : Observes past (attempt (S := machine.toSignature) o >>= f) :=
  walks_attempt (noted_of_quiet quiet past) fun r _ => rest r

theorem observes_perform {o : Op} {f : o.Resp → Script α} (quiet : observes o = none)
    (rest : ∀ a, Observes (past ++ [⟨o, .ok a⟩]) (f a)) : Observes past (perform (S := machine.toSignature) o >>= f) :=
  walks_perform (noted_of_quiet quiet past) fun a _ => rest a

end Steps

/-! ### Creating and cancelling -/

theorem createDeliveries_observes (h : Host) (eventType : WebhookEventType) (task : Task) (payload : Json) (now : Time)
    (endpoints : List WebhookEndpoint) : (createDeliveries h eventType task payload now endpoints).Heeds Noted := by
  induction endpoints with
  | nil => exact fun _ => walks_ret trivial
  | cons endpoint rest ih =>
    intro past
    refine observes_perform rfl fun id => observes_attempt rfl fun r => ?_
    cases r with
    | error e => exact (ih _).bind fun _ _ _ _ => walks_ret trivial
    | ok _ =>
      refine walks_perform (noted_record rfl List.not_mem_nil (.marked ?_ rfl _)) fun _ _ => ih _
      exact List.mem_singleton_self _

theorem publishTaskEvent_observes (h : Host) (eventType : WebhookEventType) (task : Task) :
    (publishTaskEvent h eventType task).Heeds Noted := by
  intro past
  unfold publishTaskEvent
  split
  · refine observes_attempt rfl fun r => ?_
    cases r with
    | error e => exact walks_ret trivial
    | ok endpoints =>
      simp only
      split
      · exact walks_ret trivial
      · exact observes_perform rfl fun now => observes_perform rfl fun eventID => createDeliveries_observes h _ _ _ _ _ _
  · exact walks_ret trivial

theorem dispatchCreated_observes (h : Host) (task : Task) {past : List machine.Exchange}
    (pending : metricLedger.Pending (.created task.id) [] past) : Observes past (dispatchCreated h task) := by
  refine walks_perform (noted_record (by rfl) List.not_mem_nil pending) fun _ _ => ?_
  refine (publishTaskEvent_observes h _ _ _).bind fun after _ _ _ => ?_
  refine (Calls.heeds (A := Op.within Footprint.unobserving) ?_ noted_of_within) after
  simp [perform, attempt, Op.within]

theorem createTask_observes (h : Host) (input : CreateTaskInput) : (createTask h input).Heeds Noted := by
  intro past
  unfold createTask
  split
  · exact walks_ret trivial
  · refine observes_attempt rfl fun r => ?_
    split
    · exact walks_ret trivial
    · refine observes_perform rfl fun now => observes_perform rfl fun id => observes_attempt rfl fun r => ?_
      split
      · exact dispatchCreated_observes h _ (.marked (List.mem_singleton_self _) rfl _)
      · refine observes_attempt rfl fun r => ?_
        split <;> exact walks_ret trivial
      · exact walks_ret trivial
    · exact walks_ret trivial

theorem cancelTask_observes (h : Host) (orgID id : UUID) : (cancelTask h orgID id).Heeds Noted := by
  intro past
  refine observes_perform rfl fun now => observes_attempt rfl fun r => ?_
  cases r with
  | error e => exact walks_ret trivial
  | ok task =>
    refine observes_attempt rfl fun r => ?_
    have pending : metricLedger.Pending (.cancelled task.id) [] (past ++ [⟨.sys .now, .ok now⟩] ++
        [⟨.task (.cancel orgID id now), .ok task⟩] ++ [⟨.broker (.remove orgID task.queue task.id), r⟩]) :=
      (Ledger.Pending.marked (List.mem_singleton_self _) rfl _).append (fun _ hn => hn) fun x hx n hn => by
        rw [List.mem_singleton.1 hx] at hn
        cases hn
    refine walks_perform (noted_record rfl List.not_mem_nil pending) fun _ _ => ?_
    exact (publishTaskEvent_observes h _ _ _).bind fun _ _ _ _ => walks_ret trivial

theorem dispatchWorkflowWebhook_observes (h : Host) (execution : WorkflowExecution) (node : WorkflowNode)
    (input : RawMessage) : (dispatchWorkflowWebhook h execution node input).Heeds Noted := by
  intro past
  unfold dispatchWorkflowWebhook
  split
  · exact walks_ret trivial
  split
  · exact walks_ret trivial
  refine observes_attempt rfl fun r => ?_
  cases r with
  | error e => exact walks_ret trivial
  | ok endpoint =>
    simp only
    split
    · exact walks_ret trivial
    refine observes_attempt rfl fun r => ?_
    cases r with
    | ok existing => exact walks_ret trivial
    | error e =>
      refine observes_perform rfl fun now => observes_perform rfl fun eventID => observes_attempt rfl fun r => ?_
      cases r with
      | ok _ =>
        refine walks_perform (noted_record rfl List.not_mem_nil (.marked ?_ rfl _)) fun _ _ => walks_ret trivial
        exact List.mem_singleton_self _
      | error e =>
        refine observes_attempt rfl fun r => ?_
        cases r <;> exact walks_ret trivial

/-! ### Attempts -/

/-- Calls that observe created deliveries only. -/
abbrev Footprint.announcing : Footprint :=
  { Footprint.unobserving with records := fun input => ∃ id, input.mark = .delivery id }

section Attempts
variable {past : List machine.Exchange} {done : List (MetricEventType × Mark)} {m : Mark}

/-- A call that observes nothing leaves what is pending. -/
theorem pending_quiet (pending : metricLedger.Pending m done past) {o : Op} (quiet : observes o = none)
    (r : machine.Answer o) : metricLedger.Pending m done (past ++ [⟨o, r⟩]) :=
  pending.append (fun _ hn => hn) fun x hx n hn => by
    rw [List.mem_singleton.1 hx] at hn
    simp [metricLedger, quiet] at hn

/-- A metric that was recorded is done. -/
theorem pending_recorded (pending : metricLedger.Pending m done past) (input : NewMetricEventInput)
    (r : machine.Answer (.sys (.record input))) :
    metricLedger.Pending m ((input.eventType, input.mark) :: done) (past ++ [⟨.sys (.record input), r⟩]) :=
  pending.append (List.subset_cons_self _ _) fun x hx n hn _ => by
    rw [List.mem_singleton.1 hx] at hn
    obtain ⟨input', hi, rfl⟩ := Option.map_eq_some_iff.1 hn
    simp only [observes] at hi
    split at hi
    · cases hi
    · cases hi
      exact List.mem_cons_self

/-- Publishing an event observes its deliveries, and nothing of a task. -/
theorem publishTaskEvent_pending (h : Host) (eventType : WebhookEventType) (task : Task) {id : UUID} {attempts : Int}
    (pending : metricLedger.Pending (.claimed id attempts) done past) :
    Walks (fun _ _ => True) Noted (fun after _ => metricLedger.Pending (.claimed id attempts) done after) past
      (publishTaskEvent h eventType task) := by
  have calls := publishTaskEvent_calls (f := .announcing) (fun _ _ => trivial) h eventType task fun d => ⟨_, rfl⟩
  refine ((publishTaskEvent_observes h eventType task past).framed calls).imp ?_
  rintro after _ - ⟨-, more, rfl, own⟩
  refine pending.append (fun _ hn => hn) fun x hx n hn same => ?_
  obtain ⟨input, hi, rfl⟩ := Option.map_eq_some_iff.1 hn
  have within := own x hx
  obtain ⟨o, r⟩ := x
  cases o with
  | sys o =>
    cases o with
    | record input' =>
      obtain ⟨id, delivery⟩ : ∃ id, input'.mark = .delivery id := within
      simp only [observes] at hi
      split at hi
      · cases hi
      · cases hi
        cases delivery.symm.trans same
    | _ => cases hi
  | _ => cases hi

theorem handleFailure_observes (h : Host) (task : Task) (execErr : String) (now : Time)
    (pending : metricLedger.Pending (.claimed task.id task.attempts)
      [(.taskStarted, .claimed task.id task.attempts)] past) : Observes past (handleFailure h task execErr now) := by
  unfold handleFailure
  simp only
  split
  · refine observes_attempt rfl fun r => ?_
    cases r with
    | error e => exact walks_ret trivial
    | ok _ =>
      have pending := pending_quiet pending (o := .task (.moveToDeadLetter task.orgID task.id execErr now)) rfl (.ok ())
      refine walks_perform (noted_record (by rfl) (by simp [taskMetric]) pending) fun _ _ => ?_
      have pending := pending_recorded pending (taskMetric { task with lastError := execErr, status := .deadLetter }
        .taskFailed now "handler_error") (.ok ())
      refine walks_perform (noted_record (by rfl) (by simp [taskMetric]) pending) fun _ _ => ?_
      refine (publishTaskEvent_observes h _ _ _).bind fun _ _ _ _ => ?_
      exact observes_attempt rfl fun r => walks_ret trivial
  · refine observes_attempt rfl fun r => ?_
    cases r with
    | error e => exact walks_ret trivial
    | ok _ =>
      have pending := pending_quiet pending (o := .task (.fail task.orgID task.id execErr .pending
        (now + nextBackoff h { task with lastError := execErr }) now)) rfl (.ok ())
      refine walks_perform (noted_record (by rfl) (by simp [taskMetric]) pending) fun _ _ => ?_
      have pending := pending_recorded pending (taskMetric { task with
        lastError := execErr, status := .pending, visibleAt := now + nextBackoff h { task with lastError := execErr } }
        .taskFailed now "handler_error") (.ok ())
      refine walks_perform (noted_record (by rfl) (by simp [taskMetric]) pending) fun _ _ => ?_
      refine (publishTaskEvent_observes h _ _ _).bind fun _ _ _ _ => ?_
      refine observes_attempt rfl fun r => ?_
      cases r with
      | error e => exact walks_ret trivial
      | ok _ => exact observes_attempt rfl fun r => walks_ret trivial

theorem execute_observes (h : Host) (task : Task)
    (pending : metricLedger.Pending (.claimed task.id task.attempts)
      [(.taskStarted, .claimed task.id task.attempts)] past) : Observes past (execute h task) := by
  refine observes_perform rfl fun failed => observes_perform rfl fun now => ?_
  have pending := pending_quiet (pending_quiet pending (o := .sys (.runHandler task.payload)) rfl (.ok failed))
    (o := .sys .now) rfl (.ok now)
  cases failed with
  | some execErr => exact handleFailure_observes h task execErr now pending
  | none =>
    refine observes_attempt rfl fun r => ?_
    cases r with
    | error e => exact walks_ret trivial
    | ok _ =>
      have pending := pending_quiet pending (o := .task (.complete task.orgID task.id now)) rfl (.ok ())
      refine walks_perform (noted_record (by rfl) (by simp [taskMetric]) pending) fun _ _ => ?_
      refine (publishTaskEvent_observes h _ _ _).bind fun _ _ _ _ => ?_
      exact observes_attempt rfl fun r => walks_ret trivial

theorem dispatch_observes (h : Host) (orgID : UUID) (queue workerID : String) :
    (dispatch h orgID queue workerID).Heeds Noted := by
  intro past
  refine observes_attempt rfl fun r => ?_
  cases r with
  | error e => exact walks_ret trivial
  | ok taskID =>
    refine observes_perform rfl fun now => observes_attempt rfl fun r => ?_
    cases r with
    | error e => exact observes_attempt rfl fun r => walks_ret trivial
    | ok task =>
      have pending : ∀ past, metricLedger.Pending (.claimed task.id task.attempts) []
          (past ++ [⟨.task (.claimForProcessing orgID taskID workerID now), .ok task⟩]) :=
        Ledger.Pending.marked (List.mem_singleton_self _) rfl
      have started : ∀ past, metricLedger.Pending (.claimed task.id task.attempts) [] past →
          Walks (fun _ _ => True) Noted (fun after _ => metricLedger.Pending (.claimed task.id task.attempts)
            [(.taskStarted, .claimed task.id task.attempts)] after) past (publishProcessingEvent h task) := by
        intro past pending
        refine walks_perform (noted_of_quiet rfl _) fun now _ => ?_
        have pending := pending_quiet pending (o := .sys .now) rfl (.ok now)
        refine walks_perform (noted_record (by rfl) List.not_mem_nil pending) fun _ _ => ?_
        have pending := pending_recorded pending (taskMetric task .taskStarted now "") (.ok ())
        exact (publishTaskEvent_pending h .taskProcessing task pending).bind fun _ _ _ pending => walks_ret pending
      refine (started _ (pending _)).bind fun after _ _ pending => ?_
      exact (execute_observes h task pending).bind fun _ _ _ _ => walks_ret trivial

end Attempts

/-! ### The webhook worker -/

/-- A claim answers each delivery once. -/
def ClaimsOnce : (o : Op) → machine.Answer o → Prop
  | .hook (.claimDueWebhookDeliveries _ _), .ok ds => (ds.map (·.id)).Nodup
  | _, _ => True

/-- The attempt that a delivery is in. -/
abbrev WebhookDelivery.attempted (d : WebhookDelivery) : Mark := .attempt d.id d.attemptCount

theorem failedDelivery_attempted (h : Host) (d : WebhookDelivery) (response : Option WebhookHTTPResponse) (message : String)
    (now : Time) : (failedDelivery h d response message now).attempted = d.attempted := by
  unfold failedDelivery
  simp only
  split <;> rfl

section Worker
variable {past : List machine.Exchange} {done : List (MetricEventType × Mark)} {d : WebhookDelivery} {others : List Mark}

/-- The deliveries whose turn comes later. -/
def Waiting (others : List Mark) (past : List machine.Exchange) : Prop := ∀ m ∈ others, metricLedger.Pending m [] past

theorem Waiting.quiet (waiting : Waiting others past) {o : Op} (quiet : observes o = none) (r : machine.Answer o) :
    Waiting others (past ++ [⟨o, r⟩]) := fun m hm => pending_quiet (waiting m hm) quiet r

theorem Waiting.recorded (waiting : Waiting others past) {input : NewMetricEventInput} (mine : input.mark ∉ others)
    (r : machine.Answer (.sys (.record input))) : Waiting others (past ++ [⟨.sys (.record input), r⟩]) := by
  refine fun m hm => (waiting m hm).append (fun _ hn => hn) fun x hx n hn same => ?_
  rw [List.mem_singleton.1 hx] at hn
  obtain ⟨input', hi, rfl⟩ := Option.map_eq_some_iff.1 hn
  simp only [observes] at hi
  split at hi
  · cases hi
  · cases hi
    have same : input.mark = m := same
    exact (mine (same ▸ hm)).elim

/-- Recording a metric of the delivery at hand. -/
theorem observes_metric {α : Type} {φ : List machine.Exchange → α → Prop} {f : Unit → Script α} {d' : WebhookDelivery}
    {eventType : MetricEventType} {now : Time} {errorCode : String} (same : d'.attempted = d.attempted)
    (kind : eventType ∈ [.deliveryStarted, .deliverySucceeded, .deliveryFailed, .deliveryRetryScheduled, .deliveryExhausted])
    (fresh : (eventType, d.attempted) ∉ done) (pending : metricLedger.Pending d.attempted done past)
    (waiting : Waiting others past) (mine : d.attempted ∉ others)
    (rest : ∀ after, metricLedger.Pending d.attempted ((eventType, d.attempted) :: done) after → Waiting others after →
      Walks ClaimsOnce Noted φ after (f ())) :
    Walks ClaimsOnce Noted φ past (record (deliveryMetric d' eventType now errorCode) >>= f) := by
  have mark : (deliveryMetric d' eventType now errorCode).mark = d.attempted := by
    rw [← same]
    simp only [List.mem_cons, List.not_mem_nil, or_false] at kind
    rcases kind with rfl | rfl | rfl | rfl | rfl <;> rfl
  have keyed : (deliveryMetric d' eventType now errorCode).Keyed := by
    simp only [List.mem_cons, List.not_mem_nil, or_false] at kind
    rcases kind with rfl | rfl | rfl | rfl | rfl <;> rfl
  rw [← mark] at pending
  refine walks_perform (noted_record keyed (by rw [mark]; exact fresh) pending) fun _ _ => rest _ ?_ ?_
  · have recorded := pending_recorded pending (deliveryMetric d' eventType now errorCode) (.ok ())
    rwa [mark] at recorded
  · exact waiting.recorded (by rwa [mark]) _

theorem recordFailure_observes (h : Host) (response : Option WebhookHTTPResponse) (message : String) (now : Time)
    (pending : metricLedger.Pending d.attempted [(.deliveryStarted, d.attempted)] past) (waiting : Waiting others past)
    (mine : d.attempted ∉ others) :
    Walks ClaimsOnce Noted (fun after _ => Waiting others after) past (recordFailure h d response message now) := by
  have same := failedDelivery_attempted h d response message now
  refine walks_attempt (noted_of_quiet rfl past) fun r _ => ?_
  have pending := pending_quiet pending (o := .hook (.updateWebhookDelivery (failedDelivery h d response message now))) rfl r
  have waiting := waiting.quiet (o := .hook (.updateWebhookDelivery (failedDelivery h d response message now))) rfl r
  cases r with
  | error e => exact walks_ret waiting
  | ok _ =>
    refine observes_metric same (by simp) (by simp) pending waiting mine fun after pending waiting => ?_
    simp only
    split
    · exact observes_metric same (by simp) (by simp) pending waiting mine fun after _ waiting => walks_ret waiting
    · exact observes_metric same (by simp) (by simp) pending waiting mine fun after _ waiting => walks_ret waiting

theorem recordResponse_observes (h : Host) (now : Time) (response : Except String WebhookHTTPResponse)
    (pending : metricLedger.Pending d.attempted [(.deliveryStarted, d.attempted)] past) (waiting : Waiting others past)
    (mine : d.attempted ∉ others) :
    Walks ClaimsOnce Noted (fun after _ => Waiting others after) past (recordResponse h d now response) := by
  unfold recordResponse
  split
  · exact recordFailure_observes h _ _ _ pending waiting mine
  split
  · exact recordFailure_observes h _ _ _ pending waiting mine
  · rename_i response _
    refine walks_attempt (noted_of_quiet rfl past) fun r _ => ?_
    have pending := pending_quiet pending (o := .hook (.updateWebhookDelivery (deliveredDelivery d response now))) rfl r
    have waiting := waiting.quiet (o := .hook (.updateWebhookDelivery (deliveredDelivery d response now))) rfl r
    cases r with
    | error e => exact walks_ret waiting
    | ok _ =>
      exact observes_metric rfl (by simp) (by simp) pending waiting mine fun after _ waiting => walks_ret waiting

theorem processDelivery_observes (h : Host) (now : Time)
    (pending : metricLedger.Pending d.attempted [(.deliveryStarted, d.attempted)] past) (waiting : Waiting others past)
    (mine : d.attempted ∉ others) :
    Walks ClaimsOnce Noted (fun after _ => Waiting others after) past (processDelivery h d now) := by
  refine walks_attempt (noted_of_quiet rfl past) fun r _ => ?_
  have pending := pending_quiet pending (o := .hook (.getWebhookEndpoint d.orgID d.endpointID)) rfl r
  have waiting := waiting.quiet (o := .hook (.getWebhookEndpoint d.orgID d.endpointID)) rfl r
  cases r with
  | error e => exact recordFailure_observes h _ _ _ pending waiting mine
  | ok endpoint =>
    simp only
    split
    · exact recordFailure_observes h _ _ _ pending waiting mine
    split
    · exact recordFailure_observes h _ _ _ pending waiting mine
    · refine walks_perform (noted_of_quiet rfl _) fun response _ => ?_
      exact recordResponse_observes h now response (pending_quiet pending rfl _) (waiting.quiet rfl _) mine

theorem processDeliveries_observes (h : Host) (now : Time) (ds : List WebhookDelivery) (ids : (ds.map (·.id)).Nodup)
    (waiting : Waiting (ds.map (·.attempted)) past) :
    Walks ClaimsOnce Noted (fun _ _ => True) past (processDeliveries h now ds) := by
  induction ds generalizing past with
  | nil => exact walks_ret trivial
  | cons d rest ih =>
    obtain ⟨new, ids⟩ := List.nodup_cons.1 ids
    have mine : d.attempted ∉ rest.map (·.attempted) := by
      intro mem
      obtain ⟨q, hq, same⟩ := List.mem_map.1 mem
      exact new (List.mem_map.2 ⟨q, hq, (Mark.attempt.inj same).1⟩)
    have pending := waiting d.attempted List.mem_cons_self
    have later : Waiting (rest.map (·.attempted)) past := fun m hm => waiting m (List.mem_cons_of_mem _ hm)
    refine observes_metric rfl (by simp) List.not_mem_nil pending later mine fun after pending waiting => ?_
    exact (processDelivery_observes h now pending waiting mine).bind fun after _ _ waiting => ih ids waiting

theorem processDue_observes (h : Host) (past : List machine.Exchange) :
    Walks ClaimsOnce Noted (fun _ _ => True) past (processDue h) := by
  refine walks_perform (noted_of_quiet rfl past) fun now _ => ?_
  refine walks_perform (noted_of_quiet rfl _) fun ds once => processDeliveries_observes h now ds once fun m hm => ?_
  exact .marked hm rfl _

end Worker

/-- Every request observes what it did itself. -/
theorem body_observes (h : Host) (request : Request) :
    Walks ClaimsOnce Noted (fun _ _ => True) [] (body h request) := by
  have heeds : (body h request).Heeds Noted → Walks ClaimsOnce Noted (fun _ _ => True) [] (body h request) :=
    fun heeds => (heeds []).answered fun _ _ _ => trivial
  cases notes : request.noting with
  | false =>
    refine heeds ((body_calls (f := .unobserving) h ?_).heeds noted_of_within)
    exact {
      runs := fun _ => trivial
      workflows := fun _ _ => trivial
      endpoints := fun _ _ => trivial
      results := fun _ _ _ _ => trivial
      sends := fun _ => trivial
      deliveries := fun _ => trivial
      requested := fun _ _ _ _ _ _ => trivial
      dispatched := fun _ _ _ => trivial
      events := fun _ _ => trivial
      posts := fun _ _ _ _ _ => trivial
      records := fun _ quiet _ => quiet notes }
  | true =>
    by_cases workflow : request.workflow = true
    · refine heeds (workflowBody_in closed_noted (Op.within_of_advances trivial fun _ canvas => canvas) h ?_ ?_ workflow fun _ _ => trivial)
      · intro orgID executionID nodeID config input
        unfold dispatchWorkflowTask
        split
        · exact fun _ => walks_ret trivial
        · exact createTask_observes h _
      · exact fun execution node input => dispatchWorkflowWebhook_observes h execution node input
    · cases request with
      | createTask input => exact heeds (closed_noted.bind (createTask_observes h input) fun _ => closed_noted.ret _)
      | cancelTask orgID id => exact heeds (closed_noted.bind (cancelTask_observes h orgID id) fun _ => closed_noted.ret _)
      | dispatch orgID queue workerID =>
        exact heeds (closed_noted.bind (dispatch_observes h orgID queue workerID) fun _ => closed_noted.ret _)
      | processDue => exact (processDue_observes h []).bind fun _ _ _ _ => walks_ret trivial
      | _ => first | exact (workflow rfl).elim | cases notes

/-! ### Observations -/

/-- The metrics of tasks and deliveries that were recorded, the latest first. -/
def observations (trace : List (Event machine)) : List NewMetricEventInput := trace.filterMap fun e => observes e.op

structure NotesInv (trace : List (Event machine)) : Prop where
  covered : ∀ pid, metricLedger.Covered (history pid trace)
  once : ((observations trace).map fun input => (input.eventType, input.mark)).Nodup
  keyed : ∀ input ∈ observations trace, input.Keyed

theorem NotesInv.step {c : Config machine} {pid : Nat} {o : Op} (inv : NotesInv c.trace)
    (once : (metricLedger.trail c.trace).Nodup) (noted : Noted (history pid c.trace) o) (env : Env) :
    NotesInv (c.after pid env o).trace := by
  have recorded : observations (c.after pid env o).trace = (observes o).toList ++ observations c.trace := by
    simp only [observations, Config.after_trace, List.filterMap_cons]
    cases observes o <;> rfl
  refine ⟨fun p => ?_, ?_, fun input hi => ?_⟩
  · rw [Config.after_trace]
    by_cases mine : pid = p
    · subst mine
      rw [history_self (by rfl)]
      exact (inv.covered pid).snoc noted.1 _
    · rw [history_other mine]
      exact inv.covered p
  · rw [recorded]
    cases new : observes o with
    | none => exact inv.once
    | some input =>
      refine List.nodup_cons.2 ⟨fun mem => ?_, inv.once⟩
      obtain ⟨old, hold, same⟩ := List.mem_map.1 mem
      obtain ⟨e, he, recorded⟩ := List.mem_filterMap.1 hold
      have notes : metricLedger.notes o = some (input.eventType, input.mark) := by simp [metricLedger, new]
      refine noted.1.new notes once inv.covered e he ?_
      simp only [metricLedger, recorded, Option.map_some, same]
  · rw [recorded] at hi
    rcases List.mem_append.1 hi with here | before
    · exact noted.2 input (Option.mem_toList.1 here)
    · exact inv.keyed input before

theorem notes_invariant {h : Host} {w : World} {s : State} (fresh : w.Fresh) (reach : Reachable h NoReset w s) :
    NotesInv s.config.trace := by
  refine reach.invariant (fun s => NotesInv s.config.trace) ?_ ?_
  · exact ⟨fun _ => Ledger.covered_nil, List.nodup_nil, fun _ hi => by cases hi⟩
  · intro s t a prior inv allowed taken
    rcases System.next_cases taken with ⟨_, -, rfl⟩ | ⟨pid, env, request, o, k, rfl, hp, rfl⟩ | ⟨_, _, -, -, rfl⟩
    · exact inv
    · have along := prior.along (A := ClaimsOnce) ?_ (fun request => body_observes h request) hp
      · exact inv.step (trail_invariant fresh prior).once along.1 env
      · intro s pid env o reach _ _
        cases answer : (machine.exec env o s.config.world).1 with
        | error e =>
          unfold ClaimsOnce
          split <;> trivial
        | ok a =>
          unfold ClaimsOnce
          split
          · rename_i ok
            cases ok
            exact ((deliveries_run False fresh (fun R => R.elim) reach).1.claimed 0 answer).1
          · trivial
    · exact inv

end Windylane
