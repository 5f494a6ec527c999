import Windylane.Machine

/-! What the statements on the task table do to a row. `TaskChange` lists it once, with the guard of each
    statement; the facts about tasks are read off it. -/

namespace Windylane

/-- How a statement changes a row. -/
inductive TaskChange (env : Env) : TaskOp → Task → Task → Prop
  | claim {orgID id : UUID} {workerID : String} {now : Time} {r : Task}
      (claimable : Tasks.claimable orgID id now env.locked r = true) :
      TaskChange env (.claimForProcessing orgID id workerID now) r (r.markProcessing workerID now)
  | heartbeat {orgID id : UUID} {workerID : String} {timeout : Duration} {now : Time} {r : Task}
      (processing : Tasks.processing orgID id r = true) (locked : r.lockedBy = some workerID) :
      TaskChange env (.heartbeat orgID id workerID timeout now) r (Tasks.beaten timeout now r)
  | complete {orgID id : UUID} {now : Time} {r : Task} (processing : Tasks.processing orgID id r = true) :
      TaskChange env (.complete orgID id now) r (Tasks.completed now r)
  | fail {orgID id : UUID} {errMsg : String} {nextStatus : TaskStatus} {visibleAt now : Time} {r : Task}
      (processing : Tasks.processing orgID id r = true) :
      TaskChange env (.fail orgID id errMsg nextStatus visibleAt now) r (Tasks.failed errMsg nextStatus visibleAt now r)
  | deadLetter {orgID id : UUID} {errMsg : String} {now : Time} {r : Task}
      (processing : Tasks.processing orgID id r = true) :
      TaskChange env (.moveToDeadLetter orgID id errMsg now) r (Tasks.deadLettered errMsg now r)
  | reclaim {orgID : UUID} {queue : String} {now : Time} {limit : Nat} {r : Task}
      (expired : Tasks.expired orgID queue now env.locked r = true) :
      TaskChange env (.reclaimExpired orgID queue now limit) r (Tasks.reclaimed now r)
  | requeue {orgID id : UUID} {now : Time} {r : Task} (org : r.orgID = orgID) (same : r.id = id)
      (ended : r.status = .failed ∨ r.status = .deadLetter ∨ r.status = .cancelled) (there : r.deletedAt = none) :
      TaskChange env (.requeue orgID id now) r (Tasks.requeued now r)
  | cancel {orgID id : UUID} {now : Time} {r : Task} (org : r.orgID = orgID) (same : r.id = id)
      (pending : r.status = .pending) (there : r.deletedAt = none) :
      TaskChange env (.cancel orgID id now) r (Tasks.cancelled now r)
  | softDelete {orgID id : UUID} {now : Time} {r : Task} (org : r.orgID = orgID) (same : r.id = id)
      (ended : r.status.terminal = true) (there : r.deletedAt = none) :
      TaskChange env (.softDelete orgID id now) r { r with deletedAt := some now, updatedAt := now }
  | markDispatched {orgID id : UUID} {now : Time} {r : Task} (org : r.orgID = orgID) (same : r.id = id)
      (pending : r.status = .pending) :
      TaskChange env (.markDispatched orgID id now) r { r with dispatchedAt := some now, updatedAt := now }

/-- A table after a statement that changes rows. -/
def Changed (env : Env) (o : TaskOp) (rows rows' : List Task) : Prop :=
  ∃ f : Task → Task, rows' = rows.map f ∧ ∀ r ∈ rows, f r = r ∨ TaskChange env o r (f r)

theorem changed_same (env : Env) (o : TaskOp) (rows : List Task) : Changed env o rows rows :=
  ⟨id, (List.map_id rows).symm, fun _ _ => Or.inl rfl⟩

theorem changed_update {env : Env} {o : TaskOp} {rows : List Task} {p : Task → Bool} {f : Task → Task}
    (h : ∀ r ∈ rows, p r = true → TaskChange env o r (f r)) : Changed env o rows (Table.update p f rows) := by
  refine ⟨fun r => if p r then f r else r, rfl, fun r hr => ?_⟩
  dsimp only
  split
  · exact Or.inr (h r hr ‹_›)
  · exact Or.inl rfl

theorem changed_exec {env : Env} {o : TaskOp} {rows : List Task} {p : Task → Bool} {f : Task → Task} {missed : Err}
    (h : ∀ r ∈ rows, p r = true → TaskChange env o r (f r)) : Changed env o rows (Tasks.exec p f missed rows).2 := by
  unfold Tasks.exec
  split
  · exact changed_update h
  · exact changed_same env o rows

/-- Every statement inserts a row with a new id, or changes rows as `TaskChange` says. -/
theorem TaskOp.run_cases {rows : List Task} (ids : (rows.map (·.id)).Nodup) (env : Env) (o : TaskOp) :
    (∃ t, o = .create t ∧ t.id ∉ rows.map (·.id) ∧ (o.run env rows).2 = rows ++ [Tasks.inserted t]) ∨
      Changed env o rows (o.run env rows).2 := by
  cases o with
  | create t =>
    simp only [TaskOp.run, Tasks.create]
    split
    · exact Or.inr (changed_same env _ rows)
    · rename_i free
      refine Or.inl ⟨t, rfl, fun hm => free ?_, rfl⟩
      obtain ⟨r, hr, he⟩ := List.mem_map.1 hm
      exact List.any_eq_true.2 ⟨r, hr, by simp [Tasks.conflicts, he]⟩
  | getByID | findByIdempotencyKey | listUndispatchedPending | listDispatchableTasks | listTasks | queueStats =>
    exact Or.inr (changed_same env _ rows)
  | claimForProcessing orgID id workerID now =>
    right
    simp only [TaskOp.run, Tasks.claimForProcessing]
    split
    · exact changed_same env _ rows
    · rename_i t found
      refine changed_update fun r hr hp => ?_
      simp only [Bool.and_eq_true, decide_eq_true_eq] at hp
      -- the row with the id is the one that was found
      have := Table.eq_of_key ids hr (List.mem_of_find?_eq_some found) hp.2
      subst this
      exact .claim (List.find?_some found)
  | heartbeat orgID id workerID timeout now =>
    refine Or.inr (changed_exec fun r _ hp => ?_)
    simp only [Bool.and_eq_true, decide_eq_true_eq] at hp
    exact .heartbeat hp.1 hp.2
  | complete orgID id now => exact Or.inr (changed_exec fun r _ hp => .complete hp)
  | fail orgID id errMsg nextStatus visibleAt now => exact Or.inr (changed_exec fun r _ hp => .fail hp)
  | moveToDeadLetter orgID id errMsg now => exact Or.inr (changed_exec fun r _ hp => .deadLetter hp)
  | reclaimExpired orgID queue now limit =>
    refine Or.inr (changed_update fun r hr hp => ?_)
    simp only [Bool.and_eq_true, decide_eq_true_eq] at hp
    obtain ⟨q, hq, he⟩ := List.mem_map.1 hp.2
    have hq := List.mem_filter.1 (Table.mem_of_mem_firstBy hq)
    rw [← Table.eq_of_key ids hq.1 hr he]
    exact .reclaim hq.2
  | requeue orgID id now =>
    refine Or.inr (changed_exec fun r _ hp => ?_)
    simp only [Bool.and_eq_true, Bool.or_eq_true, decide_eq_true_eq, Option.isNone_iff_eq_none] at hp
    exact .requeue hp.1.1.1 hp.1.1.2 (or_assoc.1 hp.1.2) hp.2
  | cancel orgID id now =>
    right
    simp only [TaskOp.run, Tasks.cancel]
    split
    · refine changed_update fun r _ hp => ?_
      simp only [Bool.and_eq_true, decide_eq_true_eq, Option.isNone_iff_eq_none] at hp
      exact .cancel hp.1.1.1 hp.1.1.2 hp.1.2 hp.2
    · exact changed_same env _ rows
  | softDelete orgID id now =>
    refine Or.inr (changed_exec fun r _ hp => ?_)
    simp only [Bool.and_eq_true, decide_eq_true_eq, Option.isNone_iff_eq_none] at hp
    exact .softDelete hp.1.1.1 hp.1.1.2 hp.2 hp.1.2
  | markDispatched orgID id now =>
    refine Or.inr (changed_exec fun r _ hp => ?_)
    simp only [Bool.and_eq_true, decide_eq_true_eq] at hp
    exact .markDispatched hp.1.1 hp.1.2 hp.2

section Changes
variable {env : Env} {o : TaskOp} {r r' : Task}

theorem TaskChange.id (h : TaskChange env o r r') : r'.id = r.id := by cases h <;> rfl

theorem TaskChange.orgID (h : TaskChange env o r r') : r'.orgID = r.orgID := by cases h <;> rfl

theorem TaskChange.createdAt (h : TaskChange env o r r') : r'.createdAt = r.createdAt := by cases h <;> rfl

theorem TaskChange.queue (h : TaskChange env o r r') : r'.queue = r.queue := by cases h <;> rfl

theorem TaskChange.priority (h : TaskChange env o r r') : r'.priority = r.priority := by cases h <;> rfl

/-- A completed task can only be deleted, which leaves its status. -/
theorem TaskChange.completed (h : TaskChange env o r r') (hs : r.status = .completed) : r'.status = .completed := by
  cases h with
  | claim h => simp [Tasks.claimable, hs] at h
  | heartbeat h => simp [Tasks.processing, hs] at h
  | complete h => simp [Tasks.processing, hs] at h
  | fail h => simp [Tasks.processing, hs] at h
  | deadLetter h => simp [Tasks.processing, hs] at h
  | reclaim h => simp [Tasks.expired, hs] at h
  | requeue _ _ h => simp [hs] at h
  | cancel _ _ h => simp [hs] at h
  | softDelete => exact hs
  | markDispatched _ _ h => simp [hs] at h

end Changes

/-- The ids of tasks stay distinct. -/
theorem task_ids_kept {w : World} (ids : (w.tasks.map (·.id)).Nodup) (env : Env) (o : Op) :
    ((Op.exec env o w).2.tasks.map (·.id)).Nodup := by
  rcases o.exec_world env w with hw | hw
  · rw [hw]
    exact ids
  rw [hw]
  cases o with
  | task o =>
    simp only [Op.run]
    rcases TaskOp.run_cases ids env o with ⟨t, -, fresh, hrun⟩ | ⟨f, hrun, hf⟩
    · rw [hrun, List.map_append, List.nodup_append]
      refine ⟨ids, by simp, fun a ha b hb he => fresh ?_⟩
      rw [List.map_singleton, List.mem_singleton] at hb
      rw [he, hb] at ha
      exact ha
    · rw [hrun, List.map_map, List.map_congr_left (g := (·.id)) fun r hr => ?_]
      · exact ids
      · rcases hf r hr with he | he
        · simp [he]
        · exact he.id
  | sys | worker | broker | hook | canvas => exact ids

/-- A row stays, and changes as `TaskChange` says. -/
theorem task_moves {w : World} (ids : (w.tasks.map (·.id)).Nodup) {t : Task} (ht : t ∈ w.tasks) (env : Env) (o : Op) :
    ∃ t' ∈ (Op.exec env o w).2.tasks, t' = t ∨ ∃ o', o = .task o' ∧ TaskChange env o' t t' := by
  rcases o.exec_world env w with hw | hw
  · rw [hw]
    exact ⟨t, ht, Or.inl rfl⟩
  rw [hw]
  cases o with
  | task o =>
    simp only [Op.run]
    rcases TaskOp.run_cases ids env o with ⟨t', -, -, hrun⟩ | ⟨f, hrun, hf⟩
    · exact ⟨t, by rw [hrun]; exact List.mem_append_left _ ht, Or.inl rfl⟩
    · refine ⟨f t, by rw [hrun]; exact List.mem_map_of_mem ht, ?_⟩
      rcases hf t ht with he | he
      · exact Or.inl he
      · exact Or.inr ⟨o, rfl, he⟩
  | sys | worker | broker | hook | canvas => exact ⟨t, ht, Or.inl rfl⟩

/-- A row was there before, or was inserted. -/
theorem task_origin {w : World} (ids : (w.tasks.map (·.id)).Nodup) {env : Env} {o : Op} {t' : Task}
    (ht : t' ∈ (Op.exec env o w).2.tasks) :
    (∃ t ∈ w.tasks, t' = t ∨ ∃ o', o = .task o' ∧ TaskChange env o' t t') ∨
      ∃ t, o = .task (.create t) ∧ t' = Tasks.inserted t := by
  rcases o.exec_world env w with hw | hw
  · rw [hw] at ht
    exact Or.inl ⟨t', ht, Or.inl rfl⟩
  rw [hw] at ht
  cases o with
  | task o =>
    simp only [Op.run] at ht
    rcases TaskOp.run_cases ids env o with ⟨t, rfl, -, hrun⟩ | ⟨f, hrun, hf⟩
    · rw [hrun] at ht
      rcases List.mem_append.1 ht with ht | ht
      · exact Or.inl ⟨t', ht, Or.inl rfl⟩
      · exact Or.inr ⟨t, rfl, List.mem_singleton.1 ht⟩
    · rw [hrun] at ht
      obtain ⟨t, hm, rfl⟩ := List.mem_map.1 ht
      refine Or.inl ⟨t, hm, ?_⟩
      rcases hf t hm with he | he
      · exact Or.inl he
      · exact Or.inr ⟨o, rfl, he⟩
  | sys | worker | broker | hook | canvas => exact Or.inl ⟨t', ht, Or.inl rfl⟩

/-- A completed task stays completed, whatever is called. -/
theorem completed_kept {w : World} (ids : (w.tasks.map (·.id)).Nodup) {t : Task} (ht : t ∈ w.tasks)
    (hs : t.status = .completed) (env : Env) (o : Op) :
    ∃ t' ∈ (Op.exec env o w).2.tasks, t'.id = t.id ∧ t'.status = .completed := by
  obtain ⟨t', ht', rfl | ⟨o', -, change⟩⟩ := task_moves ids ht env o
  · exact ⟨t', ht', rfl, hs⟩
  · exact ⟨t', ht', change.id, change.completed hs⟩

end Windylane
