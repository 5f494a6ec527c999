import Windylane.Service.Rebuild
import Windylane.Calls
import Windylane.Lib.Alone

/-! The rebuild of the Redis keys while nobody else calls and nothing fails: every task that waits to be processed is put
    back once, where its time says, and the other entries stay. -/

namespace Windylane

open Conc Script Prog

/-! ### The entries of a task -/

/-- What the keys of a queue hold of one member. -/
structure Entries where
  pending : List (UUID × Int)
  processing : List (UUID × Int)
  delayed : List (UUID × Int)
  priorities : List (UUID × Int)
  dlq : List UUID

def Broker.Queue.entries (q : Broker.Queue) (member : UUID) : Entries where
  pending := q.pending.filter (·.1 = member)
  processing := q.processing.filter (·.1 = member)
  delayed := q.delayed.filter (·.1 = member)
  priorities := q.priorities.filter (·.1 = member)
  dlq := q.dlq.filter (· = member)

/-- A task stands in the pending set when it was due at `now` and otherwise in the delayed set, and nowhere else. -/
def Restored (t : Task) (now : Time) (q : Broker.Queue) : Prop :=
  (t.visibleAt ≤ now ∧
    ∃ score, q.entries t.id = ⟨[(t.id, score)], [], [], [(t.id, Broker.normalizePriority t.priority)], []⟩) ∨
  (now < t.visibleAt ∧ ∃ due, Broker.unixMilli t.visibleAt ≤ due ∧
    q.entries t.id = ⟨[], [], [(t.id, due)], [(t.id, Broker.normalizePriority t.priority)], []⟩)

section Sets
variable {member other : UUID} {score : Int} {set : List (UUID × Int)}

theorem filter_zrem_self : (Broker.zrem member set).filter (·.1 = member) = [] := by
  simp [Broker.zrem]

theorem filter_zrem_other (ne : other ≠ member) : (Broker.zrem member set).filter (·.1 = other) = set.filter (·.1 = other) := by
  rw [Broker.zrem, List.filter_filter]
  refine List.filter_congr fun m _ => ?_
  by_cases same : m.1 = other <;> simp [same, ne]

theorem filter_zadd_self : (Broker.zadd member score set).filter (·.1 = member) = [(member, score)] := by
  have gone : (set.filter (·.1 ≠ member)).filter (·.1 = member) = [] := filter_zrem_self
  rw [Broker.zadd, List.filter_append, gone]
  simp

theorem filter_zadd_other (ne : other ≠ member) :
    (Broker.zadd member score set).filter (·.1 = other) = set.filter (·.1 = other) := by
  have kept : (set.filter (·.1 ≠ member)).filter (·.1 = other) = set.filter (·.1 = other) := filter_zrem_other ne
  rw [Broker.zadd, List.filter_append, kept]
  simp [Ne.symm ne]

theorem filter_removed_self {dlq : List UUID} : (dlq.filter (· ≠ member)).filter (· = member) = [] := by simp

theorem filter_removed_other {dlq : List UUID} (ne : other ≠ member) :
    (dlq.filter (· ≠ member)).filter (· = other) = dlq.filter (· = other) := by
  rw [List.filter_filter]
  refine List.filter_congr fun m _ => ?_
  by_cases same : m = other <;> simp [same, ne]

end Sets

/-- The queue of a task after its turn: `now` is the reading of the turn and `later` the one of the broker. -/
def rebuiltQueue (t : Task) (now later : Time) (q : Broker.Queue) : Broker.Queue :=
  if now < t.visibleAt then
    Broker.enqueueDelayed t.id t.priority (Time.sub t.visibleAt now) later (Broker.remove t.id q)
  else Broker.enqueue t.id t.priority (Broker.remove t.id q)

theorem rebuiltQueue_other (t : Task) (now later : Time) (q : Broker.Queue) {member : UUID} (ne : member ≠ t.id) :
    (rebuiltQueue t now later q).entries member = q.entries member := by
  unfold rebuiltQueue
  split
  · simp only [Broker.Queue.entries, Broker.enqueueDelayed, Broker.remove, filter_zadd_other ne, filter_zrem_other ne,
      filter_removed_other ne]
  · simp only [Broker.Queue.entries, Broker.enqueue, Broker.push, Broker.remove, filter_zadd_other ne, filter_zrem_other ne,
      filter_removed_other ne]

/-- A span that a duration holds. -/
theorem Time.sub_eq {t u : Time} (le : u ≤ t) (near : t - u ≤ maxDuration) : Time.sub t u = t - u := by
  rw [Time.sub, min_eq_left near]
  refine max_eq_right ?_
  have short : -maxDuration ≤ (0 : Int) := by decide
  exact short.trans (Int.sub_nonneg_of_le le)

theorem rebuiltQueue_restored (t : Task) {now later : Time} (clock : now ≤ later) (near : t.visibleAt - now ≤ maxDuration)
    (q : Broker.Queue) : Restored t now (rebuiltQueue t now later q) := by
  unfold rebuiltQueue
  split
  · rename_i early
    refine Or.inr ⟨early, Broker.unixMilli (later + Time.sub t.visibleAt now), ?_, ?_⟩
    · rw [Time.sub_eq early.le near, Broker.unixMilli, Broker.unixMilli]
      refine Int.ediv_le_ediv (by decide) ?_
      have : (0 : Int) ≤ later - now := Int.sub_nonneg_of_le clock
      exact (Int.le_add_of_nonneg_right this).trans_eq (by ring)
    · simp only [Broker.Queue.entries, Broker.enqueueDelayed, Broker.remove, filter_zadd_self, filter_zrem_self, filter_removed_self]
  · rename_i due
    refine Or.inl ⟨not_lt.1 due, (9 - Broker.normalizePriority t.priority) * Broker.priorityBucketSize + (q.sequence + 1), ?_⟩
    simp only [Broker.Queue.entries, Broker.enqueue, Broker.push, Broker.remove, filter_zadd_self, filter_zrem_self,
      filter_removed_self]

/-! ### One turn -/

/-- What the turn of a task writes to its row. -/
def marked (now : Time) (t : Task) : Task := { t with dispatchedAt := some now, updatedAt := now }

/-- The world after the turn of a task. -/
def rebuiltWorld (t : Task) (now later : Time) (w : World) : World :=
  { w with
    broker := Function.update w.broker (t.orgID, t.queue) (rebuiltQueue t now later (w.broker (t.orgID, t.queue)))
    tasks := (Tasks.markDispatched t.orgID t.id now w.tasks).2 }

theorem rebuiltWorld_here {t : Task} {now later : Time} {w : World} :
    (rebuiltWorld t now later w).broker (t.orgID, t.queue) = rebuiltQueue t now later (w.broker (t.orgID, t.queue)) :=
  Function.update_self ..

theorem rebuiltWorld_elsewhere {t : Task} {now later : Time} {w : World} {scope : UUID × String} (ne : scope ≠ (t.orgID, t.queue)) :
    (rebuiltWorld t now later w).broker scope = w.broker scope :=
  Function.update_of_ne ne ..

/-- The counts after the turn of a task. -/
def RedisRebuildResult.count (result : RedisRebuildResult) (t : Task) (now : Time) : RedisRebuildResult :=
  if now < t.visibleAt then ⟨result.scanned + 1, result.pending, result.delayed + 1⟩
  else ⟨result.scanned + 1, result.pending + 1, result.delayed⟩

/-- The call that puts a task back. -/
def rebuiltCall (t : Task) (now : Time) : Op :=
  if now < t.visibleAt then
    .broker (.enqueueDelayed t.orgID t.queue t.id t.priority (Time.sub t.visibleAt now))
  else .broker (.enqueue t.orgID t.queue t.id t.priority)

section Turn
variable {α : Type} {env : Nat → Env} {w w' : World} {r : Except Err α} {calls : List Op}

theorem ran_sys {o : SysOp} {f : o.Resp → Script α}
    (rest : (f (o.run (env 0))).Ran (M := machine) (fun i => env (i + 1)) w r w' calls) :
    (sys o >>= f).Ran (M := machine) env w r w' (.sys o :: calls) := by
  have answered : machine.exec (env 0) (.sys o) w = (.ok (o.run (env 0)), w) := by simp
  exact ran_call answered rest

theorem ran_tryTask {o : TaskOp} {f : Except Err o.Resp → Script α} (calm : (env 0).fault = none)
    (rest : (f (o.run (env 0) w.tasks).1).Ran (M := machine) (fun i => env (i + 1))
      { w with tasks := (o.run (env 0) w.tasks).2 } r w' calls) :
    (tryTask o >>= f).Ran (M := machine) env w r w' (.task o :: calls) :=
  ran_call (M := machine) (Op.exec_calm calm (.task o) w) rest

theorem ran_tryBroker {o : BrokerOp} {f : Except Err o.Resp → Script α} (calm : (env 0).fault = none)
    (rest : (f (o.run (env 0) w.broker).1).Ran (M := machine) (fun i => env (i + 1))
      { w with broker := (o.run (env 0) w.broker).2 } r w' calls) :
    (tryBroker o >>= f).Ran (M := machine) env w r w' (.broker o :: calls) :=
  ran_call (M := machine) (Op.exec_calm calm (.broker o) w) rest

theorem markRebuilt_ran {t : Task} {now : Time} {result : RedisRebuildResult} (calm : (env 0).fault = none) (ht : t ∈ w.tasks)
    (pending : t.status = .pending) :
    (markRebuilt t now result).Ran (M := machine) env w (.ok (result, none))
      { w with tasks := (Tasks.markDispatched t.orgID t.id now w.tasks).2 } [.task (.markDispatched t.orgID t.id now)] := by
  have there : (Tasks.markDispatched t.orgID t.id now w.tasks).1 = .ok () := by
    rw [Tasks.markDispatched, Tasks.exec, if_pos]
    exact List.any_eq_true.2 ⟨t, ht, by simp [pending]⟩
  refine ran_tryTask calm ?_
  simp only [TaskOp.run, there]
  exact ran_ret (M := machine) _ _ _

theorem rebuildTask_ran {t : Task} {result : RedisRebuildResult} (calm : ∀ i, (env i).fault = none) (ht : t ∈ w.tasks)
    (pending : t.status = .pending) :
    (rebuildTask t result).Ran (M := machine) env w (.ok (result.count t (env 1).now, none))
      (rebuiltWorld t (env 1).now (env 2).now w)
      [.broker (.remove t.orgID t.queue t.id), .sys .now, rebuiltCall t (env 1).now,
        .task (.markDispatched t.orgID t.id (env 1).now)] := by
  have cleared : (BrokerOp.remove t.orgID t.queue t.id).run (env 0) w.broker =
      (.ok (), Function.update w.broker (t.orgID, t.queue) (Broker.remove t.id (w.broker (t.orgID, t.queue)))) := rfl
  refine ran_tryBroker (calm 0) ?_
  rw [cleared]
  refine ran_sys ?_
  simp only [SysOp.run, Nat.zero_add, RedisRebuildResult.count, rebuiltWorld, rebuiltQueue, rebuiltCall]
  split
  · refine ran_tryBroker ?_ ?_
    · exact calm 2
    simp only [BrokerOp.run, BrokerOp.runQueue, BrokerOp.scope, Function.update_self, Function.update_idem]
    exact markRebuilt_ran (by exact calm 3) ht pending
  · refine ran_tryBroker ?_ ?_
    · exact calm 2
    simp only [BrokerOp.run, BrokerOp.runQueue, BrokerOp.scope, Function.update_self, Function.update_idem]
    exact markRebuilt_ran (by exact calm 3) ht pending

end Turn

/-! ### Turn after turn -/

/-- From `w` to `w'` the tasks `done` had their turn, at readings of `at`, and nothing else changed. -/
structure Swept (reading : Time → Prop) (done : List Task) (w w' : World) : Prop where
  rows : ∃ f, w'.tasks = w.tasks.map f ∧ (∀ r ∈ w.tasks, r ∉ done → f r = r) ∧
    ∀ r ∈ done, ∃ now, reading now ∧ f r = marked now r ∧ Restored r now (w'.broker (r.orgID, r.queue))
  others : ∀ scope member, (∀ r ∈ done, r.id = member → (r.orgID, r.queue) ≠ scope) →
    (w'.broker scope).entries member = (w.broker scope).entries member

section Swept
variable {reading : Time → Prop} {done : List Task} {w w' : World}

theorem swept_nil (reading : Time → Prop) (w : World) : Swept reading [] w w :=
  ⟨⟨id, (List.map_id _).symm, fun _ _ _ => rfl, fun _ hr => absurd hr List.not_mem_nil⟩, fun _ _ _ => rfl⟩

/-- A row that had no turn is as it was. -/
theorem Swept.kept (swept : Swept reading done w w') {r : Task} (hr : r ∈ w.tasks) (waits : r ∉ done) : r ∈ w'.tasks := by
  obtain ⟨f, rows, same, -⟩ := swept.rows
  rw [rows, ← same r hr waits]
  exact List.mem_map_of_mem hr

/-- Where a row comes from. -/
theorem Swept.source (swept : Swept reading done w w') {r' : Task} (hr : r' ∈ w'.tasks) :
    (r' ∈ w.tasks ∧ r' ∉ done) ∨ ∃ r ∈ done, ∃ now, reading now ∧ r' = marked now r := by
  obtain ⟨f, rows, same, turn⟩ := swept.rows
  obtain ⟨r, there, rfl⟩ := List.mem_map.1 (rows ▸ hr)
  by_cases had : r ∈ done
  · obtain ⟨now, read, set, -⟩ := turn r had
    exact Or.inr ⟨r, had, now, read, set⟩
  · rw [same r there had]
    exact Or.inl ⟨there, had⟩

theorem Swept.ids (swept : Swept reading done w w') : w'.tasks.map (·.id) = w.tasks.map (·.id) := by
  obtain ⟨f, rows, same, turn⟩ := swept.rows
  rw [rows, List.map_map]
  refine List.map_congr_left fun r hr => ?_
  by_cases had : r ∈ done
  · obtain ⟨now, -, set, -⟩ := turn r had
    simp [set, marked]
  · simp [same r hr had]

theorem Swept.mono {reading' : Time → Prop} (swept : Swept reading done w w') (more : ∀ now, reading now → reading' now) :
    Swept reading' done w w' := by
  obtain ⟨f, rows, same, turn⟩ := swept.rows
  refine ⟨⟨f, rows, same, fun r hr => ?_⟩, swept.others⟩
  obtain ⟨now, read, restored⟩ := turn r hr
  exact ⟨now, more now read, restored⟩

/-- One turn. -/
theorem swept_turn {t : Task} {now later : Time} (read : reading now) (clock : now ≤ later)
    (near : t.visibleAt - now ≤ maxDuration) (ids : (w.tasks.map (·.id)).Nodup) (ht : t ∈ w.tasks)
    (pending : t.status = .pending) : Swept reading [t] w (rebuiltWorld t now later w) := by
  constructor
  · refine ⟨fun r => if r.orgID = t.orgID && r.id = t.id && r.status = .pending then marked now r else r, ?_, fun r hr other => ?_,
      fun r hr => ?_⟩
    · have there : w.tasks.any (fun r => r.orgID = t.orgID && r.id = t.id && r.status = .pending) = true :=
        List.any_eq_true.2 ⟨t, ht, by simp [pending]⟩
      rw [rebuiltWorld, Tasks.markDispatched, Tasks.exec, if_pos there]
      rfl
    · refine if_neg fun chosen => other ?_
      simp only [Bool.and_eq_true, decide_eq_true_eq] at chosen
      rw [Table.eq_of_key ids hr ht chosen.1.2]
      exact List.mem_singleton.2 rfl
    · cases List.mem_singleton.1 hr
      refine ⟨now, read, if_pos (by simp [pending]), ?_⟩
      rw [rebuiltWorld_here]
      exact rebuiltQueue_restored t clock near _
  · intro scope member other
    by_cases here : scope = (t.orgID, t.queue)
    · subst here
      rw [rebuiltWorld_here]
      exact rebuiltQueue_other t now later _ fun same => other t (List.mem_singleton.2 rfl) same.symm rfl
    · rw [rebuiltWorld_elsewhere here]

/-- Later turns leave what earlier ones did. -/
theorem Swept.append {done' : List Task} {w'' : World} (first : Swept reading done w w') (rest : Swept reading done' w' w'')
    (ids : (w.tasks.map (·.id)).Nodup) (sub : ∀ r ∈ done, r ∈ w.tasks) (sub' : ∀ r ∈ done', r ∈ w.tasks)
    (apart : ∀ r ∈ done, r ∉ done') : Swept reading (done ++ done') w w'' := by
  have new {r r' : Task} (hr : r ∈ done) (hr' : r' ∈ done') : r'.id ≠ r.id := fun same => by
    rw [Table.eq_of_key ids (sub' r' hr') (sub r hr) same] at hr'
    exact apart r hr hr'
  obtain ⟨f, rows, same, turn⟩ := first.rows
  obtain ⟨g, rows', same', turn'⟩ := rest.rows
  constructor
  · refine ⟨g ∘ f, by rw [rows', rows, List.map_map], fun r hr waits => ?_, fun r hr => ?_⟩
    · rw [List.mem_append, not_or] at waits
      rw [Function.comp_apply, same r hr waits.1]
      exact same' r (first.kept hr waits.1) waits.2
    · rcases List.mem_append.1 hr with hr | hr
      · obtain ⟨now, read, set, restored⟩ := turn r hr
        refine ⟨now, read, ?_, ?_⟩
        · rw [Function.comp_apply, set]
          refine same' _ ?_ fun again => new hr again rfl
          rw [rows, ← set]
          exact List.mem_map_of_mem (sub r hr)
        · unfold Restored
          rw [rest.others _ _ fun r' hr' again => absurd again (new hr hr')]
          exact restored
      · have waits : r ∉ done := fun had => apart r had hr
        obtain ⟨now, read, set, restored⟩ := turn' r hr
        refine ⟨now, read, ?_, restored⟩
        rw [Function.comp_apply, same r (sub' r hr) waits, set]
  · intro scope member other
    rw [rest.others scope member fun r hr => other r (List.mem_append_right _ hr),
      first.others scope member fun r hr => other r (List.mem_append_left _ hr)]

end Swept

/-! ### Batch after batch -/

/-- The tasks that the calls cleared, one after the other. -/
def cleared (calls : List Op) : List UUID :=
  calls.filterMap fun
    | .broker (.remove _ _ id) => some id
    | _ => none

/-- The tasks of a run are counted. -/
structure Counted (done : List Task) (before after : RedisRebuildResult) : Prop where
  scanned : after.scanned = before.scanned + done.length
  placed : after.pending + after.delayed = before.pending + before.delayed + done.length

theorem counted_nil (result : RedisRebuildResult) : Counted [] result result := ⟨rfl, rfl⟩

theorem counted_turn (result : RedisRebuildResult) (t : Task) (now : Time) : Counted [t] result (result.count t now) := by
  unfold RedisRebuildResult.count
  split
  · exact ⟨rfl, by simp; omega⟩
  · exact ⟨rfl, by simp; omega⟩

theorem Counted.append {done done' : List Task} {a b c : RedisRebuildResult} (first : Counted done a b) (rest : Counted done' b c) :
    Counted (done ++ done') a c := by
  constructor
  · rw [rest.scanned, first.scanned, List.length_append]
    omega
  · rw [rest.placed, first.placed, List.length_append]
    omega

/-- A run alone that sweeps the tasks `done`, in that order, and answers `answer` of the counts. -/
structure Sweeps {α : Type} (env : Nat → Env) (p : Script α) (w : World) (result : RedisRebuildResult)
    (answer : RedisRebuildResult → α) (done : List Task) (after : RedisRebuildResult) (w' : World) (calls : List Op) : Prop where
  ran : p.Ran (M := machine) env w (.ok (answer after)) w' calls
  swept : Swept (fun now => ∃ i, now = (env i).now) done w w'
  cleared : cleared calls = done.map (·.id)
  counted : Counted done result after

theorem Sweeps.bind {α β : Type} {env : Nat → Env} {p : Script α} {f : α → Script β} {w w' w'' : World}
    {result mid after : RedisRebuildResult} {answer : RedisRebuildResult → α} {answer' : RedisRebuildResult → β}
    {done done' : List Task} {calls calls' : List Op} (first : Sweeps env p w result answer done mid w' calls)
    (rest : Sweeps (fun i => env (i + calls.length)) (f (answer mid)) w' mid answer' done' after w'' calls')
    (ids : (w.tasks.map (·.id)).Nodup) (sub : ∀ r ∈ done ++ done', r ∈ w.tasks) (apart : ∀ r ∈ done, r ∉ done') :
    Sweeps env (p >>= f) w result answer' (done ++ done') after w'' (calls ++ calls') where
  ran := first.ran.bind rest.ran
  swept := first.swept.append (rest.swept.mono fun _ ⟨i, read⟩ => ⟨_, read⟩) ids
    (fun r hr => sub r (List.mem_append_left _ hr)) (fun r hr => sub r (List.mem_append_right _ hr)) apart
  cleared := by
    rw [Windylane.cleared, List.filterMap_append, List.map_append]
    exact congrArg₂ (· ++ ·) first.cleared rest.cleared
  counted := first.counted.append rest.counted

/-- A clock that does not go back. -/
def Steady (env : Nat → Env) : Prop := ∀ i, (env i).now ≤ (env (i + 1)).now

theorem Steady.shift {env : Nat → Env} (steady : Steady env) (n : Nat) : Steady fun i => env (i + n) := fun i => by
  have next := steady (i + n)
  rwa [Nat.add_right_comm] at next

section Batches
variable {env : Nat → Env} (calm : ∀ i, (env i).fault = none) (steady : Steady env)
include calm steady

theorem rebuildTask_sweeps {t : Task} {w : World} (ids : (w.tasks.map (·.id)).Nodup) (ht : t ∈ w.tasks)
    (pending : t.status = .pending) (near : ∀ i, t.visibleAt - (env i).now ≤ maxDuration) (result : RedisRebuildResult) :
    ∃ w' calls, Sweeps env (rebuildTask t result) w result (fun after => (after, none)) [t] (result.count t (env 1).now) w' calls := by
  refine ⟨_, _, rebuildTask_ran calm ht pending, swept_turn ⟨1, rfl⟩ (steady 1) (near 1) ids ht pending, ?_, counted_turn _ _ _⟩
  unfold rebuiltCall
  split
  · rfl
  · rfl

theorem rebuildTasks_sweeps {tasks : List Task} {w : World} (ids : (w.tasks.map (·.id)).Nodup) (sub : ∀ t ∈ tasks, t ∈ w.tasks)
    (pending : ∀ t ∈ tasks, t.status = .pending) (near : ∀ t ∈ tasks, ∀ i, t.visibleAt - (env i).now ≤ maxDuration)
    (once : tasks.Nodup) (result : RedisRebuildResult) :
    ∃ after w' calls, Sweeps env (rebuildTasks tasks result) w result (fun after => (after, none)) tasks after w' calls := by
  induction tasks generalizing env w result with
  | nil =>
    exact ⟨result, w, [], ran_ret (M := machine) _ _ _, swept_nil _ _, rfl, counted_nil result⟩
  | cons t rest ih =>
    obtain ⟨new, once⟩ := List.nodup_cons.1 once
    have apart : ∀ r ∈ [t], r ∉ rest := fun r hr => List.mem_singleton.1 hr ▸ new
    obtain ⟨w', calls, first⟩ := rebuildTask_sweeps calm steady ids (sub t List.mem_cons_self) (pending t List.mem_cons_self)
      (near t List.mem_cons_self) result
    obtain ⟨after, w'', calls', later⟩ := ih (fun i => calm (i + calls.length)) (steady.shift _) (first.swept.ids ▸ ids)
      (fun r hr => first.swept.kept (sub r (List.mem_cons_of_mem _ hr)) fun same => apart r same hr)
      (fun r hr => pending r (List.mem_cons_of_mem _ hr)) (fun r hr i => near r (List.mem_cons_of_mem _ hr) _) once
      (result.count t (env 1).now)
    exact ⟨after, w'', calls ++ calls', first.bind later ids sub apart⟩

omit calm steady in
/-- A batch, and what is left after it. -/
theorem batch_split {w : World} (ids : (w.tasks.map (·.id)).Nodup) (afterID : UUID) :
    ∃ rest, (Tasks.listDispatchableTasks afterID rebuildBatchSize w.tasks ++ rest).Perm
        (w.tasks.filter fun r => Tasks.dispatchable r && afterID < r.id) ∧
      (Tasks.listDispatchableTasks afterID rebuildBatchSize w.tasks ++ rest).Pairwise (fun a b => a.id < b.id) ∧
      (rest ≠ [] → (Tasks.listDispatchableTasks afterID rebuildBatchSize w.tasks).length = rebuildBatchSize) := by
  have yes (a b : Task) (lt : decide (a.id < b.id) = true) : a.id.bits ≤ b.id.bits := BitVec.le_of_lt (of_decide_eq_true lt)
  have no (a b : Task) (ge : decide (a.id < b.id) = false) : b.id.bits ≤ a.id.bits := BitVec.not_lt.1 (of_decide_eq_false ge)
  obtain ⟨rest, perm, sorted, full⟩ := Table.firstBy_split yes no (fun a b c => BitVec.le_trans) rebuildBatchSize
    (w.tasks.filter fun r => Tasks.dispatchable r && afterID < r.id)
  refine ⟨rest, perm, ?_, full⟩
  have distinct : (w.tasks.filter fun r => Tasks.dispatchable r && afterID < r.id).map (·.id) |>.Nodup :=
    ids.sublist (List.filter_sublist.map _)
  have apart := List.pairwise_map.1 ((perm.map (·.id)).nodup_iff.2 distinct)
  exact (sorted.and apart).imp fun ⟨le, ne⟩ => BitVec.lt_of_le_ne le fun same => ne (congrArg UUID.mk same)

omit calm steady in
theorem pending_of_dispatchable {r : Task} (dispatchable : Tasks.dispatchable r = true) : r.status = .pending := by
  simp only [Tasks.dispatchable, Bool.and_eq_true, decide_eq_true_eq] at dispatchable
  exact dispatchable.1

omit calm steady in
theorem nodup_of_ascending {tasks : List Task} (sorted : tasks.Pairwise fun a b => a.id < b.id) : tasks.Nodup :=
  sorted.imp fun {a b} lt (same : a = b) => by
    subst same
    exact BitVec.lt_irrefl _ lt

omit calm steady in
/-- The last task has the greatest id. -/
theorem last_of_ascending {tasks : List Task} (some : tasks ≠ []) (sorted : tasks.Pairwise fun a b => a.id < b.id) :
    ∀ r ∈ tasks, ¬ (tasks.getLast some).id < r.id := by
  intro r hr later
  rw [← List.dropLast_append_getLast some] at hr sorted
  rcases List.mem_append.1 hr with earlier | same
  · exact BitVec.lt_irrefl _ (BitVec.lt_trans later ((List.pairwise_append.1 sorted).2.2 r earlier _ (List.mem_singleton.2 rfl)))
  · rw [List.mem_singleton.1 same] at later
    exact BitVec.lt_irrefl _ later

omit calm steady in
/-- After a batch, the tasks beyond its last one are those that were left. -/
theorem left_after {reading : Time → Prop} {batch rest : List Task} {w w' : World} {afterID : UUID} {last : Task}
    (swept : Swept reading batch w w') (ids : (w.tasks.map (·.id)).Nodup)
    (perm : (batch ++ rest).Perm (w.tasks.filter fun r => Tasks.dispatchable r && afterID < r.id))
    (sorted : (batch ++ rest).Pairwise fun a b => a.id < b.id) (hlast : last ∈ batch)
    (final : ∀ r ∈ batch, ¬ last.id < r.id) :
    rest.Perm (w'.tasks.filter fun r => Tasks.dispatchable r && last.id < r.id) := by
  have mem (r : Task) : r ∈ batch ++ rest ↔ r ∈ w.tasks ∧ Tasks.dispatchable r = true ∧ afterID < r.id := by
    rw [perm.mem_iff, List.mem_filter, Bool.and_eq_true, decide_eq_true_eq]
  obtain ⟨-, -, across⟩ := List.pairwise_append.1 sorted
  have once := nodup_of_ascending sorted
  have distinct : ((w'.tasks.filter fun r => Tasks.dispatchable r && last.id < r.id).map (·.id)).Nodup :=
    (swept.ids ▸ ids).sublist (List.filter_sublist.map _)
  refine (List.perm_ext_iff_of_nodup (List.nodup_append.1 once).2.1 (List.Nodup.of_map _ distinct)).2 fun r => ?_
  rw [List.mem_filter, Bool.and_eq_true, decide_eq_true_eq]
  constructor
  · intro hr
    obtain ⟨there, dispatchable, -⟩ := (mem r).1 (List.mem_append_right _ hr)
    have waits : r ∉ batch := fun had => BitVec.lt_irrefl _ (across r had r hr)
    exact ⟨swept.kept there waits, dispatchable, across last hlast r hr⟩
  · rintro ⟨there, dispatchable, beyond⟩
    rcases swept.source there with ⟨there, waits⟩ | ⟨q, had, now, -, rfl⟩
    · have after : afterID < r.id := BitVec.lt_trans ((mem last).1 (List.mem_append_left _ hlast)).2.2 beyond
      exact (List.mem_append.1 ((mem r).2 ⟨there, dispatchable, after⟩)).resolve_left waits
    · exact absurd beyond (final q had)

omit steady in
theorem scan_sweeps (w : World) (afterID : UUID) (result : RedisRebuildResult) :
    Sweeps env (tryTask (.listDispatchableTasks afterID rebuildBatchSize)) w result
      (fun _ => .ok (Tasks.listDispatchableTasks afterID rebuildBatchSize w.tasks)) [] result w
      [.task (.listDispatchableTasks afterID rebuildBatchSize)] where
  ran := ran_call (M := machine) (Op.exec_calm (calm 0) (.task _) w) (ran_ret (M := machine) _ _ _)
  swept := swept_nil _ _
  cleared := rfl
  counted := counted_nil result

omit calm steady in
theorem pure_sweeps {α : Type} (w : World) (result : RedisRebuildResult) (answer : RedisRebuildResult → α) :
    Sweeps env (pure (answer result)) w result answer [] result w [] :=
  ⟨ran_ret (M := machine) _ _ _, swept_nil _ _, rfl, counted_nil result⟩

/-- The loop ends, and sweeps the tasks after `afterID` in the order of their ids. -/
theorem rebuildAfter_sweeps {turns : Nat} {w : World} (ids : (w.tasks.map (·.id)).Nodup) (afterID : UUID)
    (near : ∀ t ∈ w.tasks, Tasks.dispatchable t = true → ∀ i, t.visibleAt - (env i).now ≤ maxDuration)
    (enough : (w.tasks.filter fun r => Tasks.dispatchable r && afterID < r.id).length < turns) (result : RedisRebuildResult) :
    ∃ done after w' calls, done.Perm (w.tasks.filter fun r => Tasks.dispatchable r && afterID < r.id) ∧
      Sweeps env (rebuildAfter turns afterID result) w result (fun after => some (after, none)) done after w' calls := by
  induction turns generalizing env w afterID result with
  | zero => cases enough
  | succ turns ih =>
    obtain ⟨rest, perm, sorted, full⟩ := batch_split ids afterID
    have scan := scan_sweeps calm w afterID result
    generalize Tasks.listDispatchableTasks afterID rebuildBatchSize w.tasks = batch at perm sorted full scan
    have among (r : Task) (hr : r ∈ batch ++ rest) : r ∈ w.tasks ∧ Tasks.dispatchable r = true := by
      have found := perm.mem_iff.1 hr
      rw [List.mem_filter, Bool.and_eq_true] at found
      exact ⟨found.1, found.2.1⟩
    cases batch with
    | nil =>
      have empty : rest = [] := by
        by_contra more
        cases full more
      subst empty
      exact ⟨[], _, _, _, perm, scan.bind (pure_sweeps w result fun after => some (after, none)) ids (by simp) (by simp)⟩
    | cons task tail =>
      let batch := task :: tail
      have apart (r : Task) (hr : r ∈ batch) : r ∉ rest := fun again =>
        BitVec.lt_irrefl _ ((List.pairwise_append.1 sorted).2.2 r hr r again)
      obtain ⟨mid, w', calls, turn⟩ := rebuildTasks_sweeps (fun i => calm (i + 1)) (steady.shift 1) ids
        (fun r (hr : r ∈ batch) => (among r (List.mem_append_left _ hr)).1)
        (fun r hr => pending_of_dispatchable (among r (List.mem_append_left _ hr)).2)
        (fun r hr i => near r (among r (List.mem_append_left _ hr)).1 (among r (List.mem_append_left _ hr)).2 _)
        (nodup_of_ascending (List.pairwise_append.1 sorted).1) result
      -- What the loop does after the batch.
      have next : ∃ done after w'' calls', done.Perm rest ∧ Sweeps (fun i => env (i + calls.length + 1))
          (if batch.length < rebuildBatchSize then pure (some (mid, none))
            else rebuildAfter turns (batch.getLast (List.cons_ne_nil _ _)).id mid)
          w' mid (fun after => some (after, none)) done after w'' calls' := by
        by_cases short : batch.length < rebuildBatchSize
        · have empty : rest = [] := by
            by_contra more
            exact short.ne (full more)
          rw [if_pos short, empty]
          exact ⟨[], mid, w', [], .refl _, pure_sweeps w' mid fun after => some (after, none)⟩
        · have left := left_after turn.swept ids perm sorted (List.getLast_mem (List.cons_ne_nil task tail))
            (last_of_ascending _ (List.pairwise_append.1 sorted).1)
          have fewer := perm.length_eq
          rw [List.length_append] at fewer
          rw [if_neg short]
          have nearer : ∀ t ∈ w'.tasks, Tasks.dispatchable t = true → ∀ i, t.visibleAt - (env (i + calls.length + 1)).now ≤ maxDuration := by
            intro t ht dispatchable i
            rcases turn.swept.source ht with ⟨there, -⟩ | ⟨r, had, now, -, rfl⟩
            · exact near t there dispatchable _
            · exact near r (among r (List.mem_append_left _ had)).1 dispatchable _
          obtain ⟨done, after, w'', calls', all, sweeps⟩ := ih (fun i => calm (i + calls.length + 1))
            ((steady.shift 1).shift calls.length) (turn.swept.ids ▸ ids) (batch.getLast (List.cons_ne_nil _ _)).id nearer
            (by rw [← left.length_eq]; simp only [List.length_cons] at fewer; omega) mid
          exact ⟨done, after, w'', calls', all.trans left.symm, sweeps⟩
      obtain ⟨done, after, w'', calls', rests, later⟩ := next
      refine ⟨[] ++ (batch ++ done), after, w'', [.task (.listDispatchableTasks afterID rebuildBatchSize)] ++ (calls ++ calls'),
        (rests.append_left batch).trans perm, ?_⟩
      have sub (r : Task) (hr : r ∈ batch ++ done) : r ∈ w.tasks :=
        (among r ((rests.append_left batch).mem_iff.1 hr)).1
      exact scan.bind (turn.bind later ids sub fun r hr again => apart r hr (rests.mem_iff.1 again)) ids sub (by simp)

end Batches

/-! ### The whole run -/

/-- A clock that does not go back stays after its first reading. -/
theorem Steady.after {env : Nat → Env} (steady : Steady env) (i : Nat) : (env 0).now ≤ (env i).now := by
  induction i with
  | zero => exact le_rfl
  | succ i ih => exact ih.trans (steady i)

/-- A table that can be swept from the reading `now` on: ids are unique, no waiting task has the id that the first batch
    starts after, and every waiting task is within the reach of a duration. -/
structure Sweepable (now : Time) (rows : List Task) : Prop where
  ids : (rows.map (·.id)).Nodup
  named : ∀ t ∈ rows, Tasks.dispatchable t = true → t.id ≠ UUID.nil
  near : ∀ t ∈ rows, Tasks.dispatchable t = true → t.visibleAt - now ≤ maxDuration

theorem rebuild_sweeps {env : Nat → Env} (calm : ∀ i, (env i).fault = none) (steady : Steady env) {w : World}
    (ready : Sweepable (env 0).now w.tasks) {turns : Nat} (enough : w.tasks.length < turns) :
    ∃ done after w' calls, done.Perm (w.tasks.filter Tasks.dispatchable) ∧
      Sweeps env (rebuild turns) w ⟨0, 0, 0⟩ (fun after => some (after, none)) done after w' calls := by
  have all : (w.tasks.filter fun r => Tasks.dispatchable r && UUID.nil < r.id) = w.tasks.filter Tasks.dispatchable := by
    refine List.filter_congr fun r hr => ?_
    cases dispatchable : Tasks.dispatchable r with
    | false => rfl
    | true =>
      have zero : UUID.nil < r.id := by
        refine BitVec.lt_of_le_ne (by simp [BitVec.le_def, UUID.nil]) fun same => ready.named r hr dispatchable ?_
        exact congrArg UUID.mk same.symm
      simpa using zero
  have nearer (t : Task) (ht : t ∈ w.tasks) (dispatchable : Tasks.dispatchable t = true) (i : Nat) :
      t.visibleAt - (env i).now ≤ maxDuration :=
    (Int.sub_le_sub_left (steady.after i) _).trans (ready.near t ht dispatchable)
  have sweeps := rebuildAfter_sweeps calm steady ready.ids UUID.nil nearer
    (lt_of_le_of_lt (List.length_filter_le _ _) enough) ⟨0, 0, 0⟩
  rwa [all] at sweeps

/-- The same members stand in the same keys. -/
structure SameMembers (q q' : Broker.Queue) : Prop where
  pending : ∀ m, m ∈ q.pending.map (·.1) ↔ m ∈ q'.pending.map (·.1)
  processing : ∀ m, m ∈ q.processing.map (·.1) ↔ m ∈ q'.processing.map (·.1)
  delayed : ∀ m, m ∈ q.delayed.map (·.1) ↔ m ∈ q'.delayed.map (·.1)
  priorities : ∀ m, m ∈ q.priorities.map (·.1) ↔ m ∈ q'.priorities.map (·.1)
  dlq : ∀ m, m ∈ q.dlq ↔ m ∈ q'.dlq

/-- In which of the keys a member stands. -/
def Entries.places (e : Entries) : List Bool :=
  [e.pending.isEmpty, e.processing.isEmpty, e.delayed.isEmpty, e.priorities.isEmpty, e.dlq.isEmpty]

theorem Restored.places {t : Task} {now : Time} {q q' : Broker.Queue} (first : Restored t now q) (second : Restored t now q') :
    (q.entries t.id).places = (q'.entries t.id).places := by
  rcases first with ⟨due, _, here⟩ | ⟨early, _, -, here⟩ <;> rcases second with ⟨due', _, there⟩ | ⟨early', _, -, there⟩
  · rw [here, there]
    rfl
  · exact absurd early' (not_lt.2 due)
  · exact absurd early (not_lt.2 due')
  · rw [here, there]
    rfl

theorem sameMembers_of {q q' : Broker.Queue} (same : ∀ m, (q.entries m).places = (q'.entries m).places) : SameMembers q q' := by
  have inSet (s : List (UUID × Int)) (m : UUID) : m ∈ s.map (·.1) ↔ (s.filter (·.1 = m)).isEmpty = false := by
    simp [List.isEmpty_eq_false_iff, List.filter_eq_nil_iff]
  have inList (s : List UUID) (m : UUID) : m ∈ s ↔ (s.filter (· = m)).isEmpty = false := by
    simp [List.isEmpty_eq_false_iff, List.filter_eq_nil_iff]
  simp only [Entries.places, Broker.Queue.entries, List.cons.injEq, and_true] at same
  refine ⟨fun m => ?_, fun m => ?_, fun m => ?_, fun m => ?_, fun m => ?_⟩
  · rw [inSet, inSet, (same m).1]
  · rw [inSet, inSet, (same m).2.1]
  · rw [inSet, inSet, (same m).2.2.1]
  · rw [inSet, inSet, (same m).2.2.2.1]
  · rw [inList, inList, (same m).2.2.2.2]

theorem Swept.restored {reading : Time → Prop} {done : List Task} {w w' : World} (swept : Swept reading done w w') {t : Task}
    (had : t ∈ done) (ht : t ∈ w.tasks) :
    ∃ now, reading now ∧ marked now t ∈ w'.tasks ∧ Restored t now (w'.broker (t.orgID, t.queue)) := by
  obtain ⟨f, rows, -, turn⟩ := swept.rows
  obtain ⟨now, read, set, restored⟩ := turn t had
  refine ⟨now, read, ?_, restored⟩
  rw [rows, ← set]
  exact List.mem_map_of_mem ht

/-- The rows can be swept again. -/
theorem Swept.sweepable {reading : Time → Prop} {done : List Task} {w w' : World} (swept : Swept reading done w w')
    (sub : ∀ t ∈ done, t ∈ w.tasks) {now : Time} (ready : Sweepable now w.tasks) : Sweepable now w'.tasks := by
  refine ⟨swept.ids ▸ ready.ids, fun t ht dispatchable => ?_, fun t ht dispatchable => ?_⟩
  · rcases swept.source ht with ⟨there, -⟩ | ⟨r, had, _, -, rfl⟩
    · exact ready.named t there dispatchable
    · exact ready.named r (sub r had) dispatchable
  · rcases swept.source ht with ⟨there, -⟩ | ⟨r, had, _, -, rfl⟩
    · exact ready.near t there dispatchable
    · exact ready.near r (sub r had) dispatchable

/-- At the same reading, a second sweep puts the tasks where they are. -/
theorem sameMembers_twice (now : Time) {done done' : List Task} {w w' w'' : World} (first : Swept (· = now) done w w')
    (second : Swept (· = now) done' w' w'') (all : ∀ t, t ∈ done ↔ t ∈ w.tasks ∧ Tasks.dispatchable t = true)
    (all' : ∀ t, t ∈ done' ↔ t ∈ w'.tasks ∧ Tasks.dispatchable t = true) (scope : UUID × String) :
    SameMembers (w''.broker scope) (w'.broker scope) := by
  refine sameMembers_of fun m => ?_
  by_cases mine : ∃ t ∈ done, t.id = m ∧ (t.orgID, t.queue) = scope
  · obtain ⟨t, had, rfl, rfl⟩ := mine
    obtain ⟨ht, dispatchable⟩ := (all t).1 had
    obtain ⟨_, rfl, row, restored⟩ := first.restored had ht
    obtain ⟨_, rfl, -, again⟩ := second.restored ((all' _).2 ⟨row, dispatchable⟩) row
    exact Restored.places again restored
  · rw [second.others scope m fun r' had' same elsewhere => mine ?_]
    obtain ⟨there, dispatchable⟩ := (all' r').1 had'
    rcases first.source there with ⟨there, waits⟩ | ⟨r, had, _, -, rfl⟩
    · exact absurd ((all r').2 ⟨there, dispatchable⟩) waits
    · exact ⟨r, had, same, elsewhere⟩

/-- A task that was asked for at a time. -/
def scheduledTask (id : UUID) (time : Time) : Task :=
  requestedTask { sampleTask with scheduledAt := some time } "" (.json .null) id 0

/-- Two tasks, one of them due, in Redis contents that are stale. -/
def staleWorld : World :=
  { gateWorld with
    tasks := [scheduledTask ⟨8⟩ (seconds 60), scheduledTask ⟨7⟩ 0]
    broker := fun _ => ⟨[(⟨8⟩, 3)], [(⟨7⟩, 1), (⟨5⟩, 2)], [], [], 5, [⟨8⟩, ⟨8⟩]⟩ }

/-- A task for the first day of 2500. -/
def farWorld : World := { gateWorld with tasks := [scheduledTask ⟨7⟩ (seconds 16725225600)] }

end Windylane
