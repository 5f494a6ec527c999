import Windylane.Calls
import Windylane.Theorems.Tasks

/-! The columns of a task row. Eleven statements write them, each under a guard of its own; together they keep the lease,
    the completion and the deletion of a row in line with its status, whatever they are called with. -/

namespace Windylane

structure RowCoherent (r : Task) : Prop where
  held : r.status = .processing ↔ r.lockedBy ≠ none ∧ r.lastHeartbeatAt ≠ none
  completed : r.status = .completed ↔ r.completedAt ≠ none
  deleted : r.deletedAt ≠ none → r.status.terminal = true

/-- What stays of a row: the status of a deleted one, and that it is completed. -/
structure RowSettled (r r' : Task) : Prop where
  id : r'.id = r.id
  deleted : r.deletedAt ≠ none → r'.deletedAt ≠ none ∧ r'.status = r.status
  completed : r.status = .completed → r'.status = .completed

theorem RowSettled.refl (r : Task) : RowSettled r r := ⟨rfl, fun there => ⟨there, rfl⟩, fun completed => completed⟩

theorem RowSettled.trans {r r' r'' : Task} (h : RowSettled r r') (h' : RowSettled r' r'') : RowSettled r r'' where
  id := h'.id.trans h.id
  deleted := fun there => by
    obtain ⟨there', same⟩ := h.deleted there
    obtain ⟨there'', same'⟩ := h'.deleted there'
    exact ⟨there'', same'.trans same⟩
  completed := fun completed => h'.completed (h.completed completed)

/-- A task is created pending, as `NewTask` makes it, and fails to be pending again. -/
def TaskOp.Regular : TaskOp → Prop
  | .create task => task.status = .pending
  | .fail _ _ _ nextStatus _ _ => nextStatus = .pending
  | _ => True

section Rows
variable {env : Env} {o : TaskOp} {r r' : Task}

theorem inserted_coherent {t : Task} (pending : t.status = .pending) : RowCoherent (Tasks.inserted t) := by
  constructor <;> simp [Tasks.inserted, pending]

theorem TaskChange.coherent (change : TaskChange env o r r') (regular : o.Regular) (ok : RowCoherent r) :
    RowCoherent r' := by
  have uncompleted : r.status ≠ .completed → r.completedAt = none := fun other => by
    simpa using mt ok.completed.2 other
  have undeleted : r.status.terminal = false → r.deletedAt = none := fun open_ => by
    simpa using mt ok.deleted (by simp [open_])
  cases change with
  | claim claimable =>
    simp only [Tasks.claimable, Bool.and_eq_true, Bool.or_eq_true, decide_eq_true_eq, Option.isNone_iff_eq_none] at claimable
    have done : r.completedAt = none := by
      refine uncompleted fun completed => ?_
      simp [completed] at claimable
    constructor <;> simp [Task.markProcessing, done, claimable.1.1.1.2]
  | heartbeat processing locked =>
    simp only [Tasks.processing, Bool.and_eq_true, decide_eq_true_eq] at processing
    refine ⟨?_, ok.completed, ok.deleted⟩
    simp [Tasks.beaten, processing.2, locked]
  | complete processing | deadLetter processing =>
    simp only [Tasks.processing, Bool.and_eq_true, decide_eq_true_eq] at processing
    have done : r.completedAt = none := uncompleted (by simp [processing.2])
    constructor <;> simp [Tasks.completed, Tasks.deadLettered, done, TaskStatus.terminal]
  | fail processing =>
    simp only [Tasks.processing, Bool.and_eq_true, decide_eq_true_eq] at processing
    cases regular
    have done : r.completedAt = none := uncompleted (by simp [processing.2])
    have there : r.deletedAt = none := undeleted (by simp [processing.2, TaskStatus.terminal])
    constructor <;> simp [Tasks.failed, done, there]
  | reclaim expired =>
    simp only [Tasks.expired, Bool.and_eq_true, decide_eq_true_eq] at expired
    have done : r.completedAt = none := uncompleted (by simp [expired.1.1.2])
    have there : r.deletedAt = none := undeleted (by simp [expired.1.1.2, TaskStatus.terminal])
    constructor <;> simp [Tasks.reclaimed, done, there]
  | requeue _ _ _ there => constructor <;> simp [Tasks.requeued, there]
  | cancel _ _ pending there =>
    have done : r.completedAt = none := uncompleted (by simp [pending])
    constructor <;> simp [Tasks.cancelled, done, there]
  | softDelete _ _ ended there => exact ⟨ok.held, ok.completed, fun _ => ended⟩
  | markDispatched _ _ pending => exact ⟨ok.held, ok.completed, ok.deleted⟩

/-- A deleted row has a status that only a requeue leaves, and a requeue asks for rows that are not deleted. -/
theorem TaskChange.settled (change : TaskChange env o r r') (ok : RowCoherent r) : RowSettled r r' := by
  refine ⟨change.id, fun there => ?_, change.completed⟩
  have ended := ok.deleted there
  cases change with
  | claim claimable => simp [Tasks.claimable, there] at claimable
  | heartbeat processing => exact ⟨there, rfl⟩
  | complete processing | fail processing | deadLetter processing =>
    simp only [Tasks.processing, Bool.and_eq_true, decide_eq_true_eq] at processing
    simp [processing.2, TaskStatus.terminal] at ended
  | reclaim expired =>
    simp only [Tasks.expired, Bool.and_eq_true, decide_eq_true_eq] at expired
    simp [expired.1.1.2, TaskStatus.terminal] at ended
  | requeue _ _ _ undeleted | cancel _ _ _ undeleted => exact (there undeleted).elim
  | softDelete => exact ⟨by simp, rfl⟩
  | markDispatched => exact ⟨there, rfl⟩

end Rows

/-! ### Statements in a row -/

/-- The table after a sequence of statements, each with the rows that others hold a lock of. -/
def Tasks.runAll (statements : List (Env × TaskOp)) (rows : List Task) : List Task :=
  statements.foldl (fun rows statement => (statement.2.run statement.1 rows).2) rows

structure TableCoherent (rows : List Task) : Prop where
  ids : (rows.map (·.id)).Nodup
  rows : ∀ r ∈ rows, RowCoherent r

theorem TableCoherent.step {rows : List Task} (ok : TableCoherent rows) (env : Env) {o : TaskOp} (regular : o.Regular) :
    TableCoherent (o.run env rows).2 ∧ ∀ r ∈ rows, ∃ r' ∈ (o.run env rows).2, RowSettled r r' := by
  rcases TaskOp.run_cases ok.ids env o with ⟨t, rfl, new, ran⟩ | ⟨f, ran, changes⟩
  · rw [ran]
    refine ⟨⟨?_, fun r hr => ?_⟩, fun r hr => ⟨r, List.mem_append_left _ hr, .refl r⟩⟩
    · rw [List.map_append]
      refine List.Nodup.append ok.ids (List.nodup_singleton _) fun id old same => new ?_
      rw [List.mem_singleton.1 same] at old
      exact old
    · rcases List.mem_append.1 hr with old | same
      · exact ok.rows r old
      · rw [List.mem_singleton.1 same]
        exact inserted_coherent regular
  · rw [ran]
    refine ⟨⟨?_, fun r' hr' => ?_⟩, fun r hr => ⟨f r, List.mem_map_of_mem hr, ?_⟩⟩
    · have same : ∀ r ∈ rows, (f r).id = r.id := fun r hr => (changes r hr).elim (fun h => by rw [h]) TaskChange.id
      rw [List.map_map, List.map_congr_left (g := (·.id)) same]
      exact ok.ids
    · obtain ⟨r, hr, rfl⟩ := List.mem_map.1 hr'
      rcases changes r hr with same | change
      · rw [same]
        exact ok.rows r hr
      · exact change.coherent regular (ok.rows r hr)
    · rcases changes r hr with same | change
      · rw [same]
        exact .refl r
      · exact change.settled (ok.rows r hr)

theorem TableCoherent.runAll {rows : List Task} (ok : TableCoherent rows) {statements : List (Env × TaskOp)}
    (regular : ∀ s ∈ statements, s.2.Regular) :
    TableCoherent (Tasks.runAll statements rows) ∧ ∀ r ∈ rows, ∃ r' ∈ Tasks.runAll statements rows, RowSettled r r' := by
  induction statements generalizing rows with
  | nil => exact ⟨ok, fun r hr => ⟨r, hr, .refl r⟩⟩
  | cons s rest ih =>
    obtain ⟨ok', settled⟩ := ok.step s.1 (regular s List.mem_cons_self)
    obtain ⟨last, later⟩ := ih ok' fun s hs => regular s (List.mem_cons_of_mem _ hs)
    refine ⟨last, fun r hr => ?_⟩
    obtain ⟨r', hr', once⟩ := settled r hr
    obtain ⟨r'', hr'', again⟩ := later r' hr'
    exact ⟨r'', hr'', once.trans again⟩

theorem task_rows_coherent {statements more : List (Env × TaskOp)} (regular : ∀ s ∈ statements ++ more, s.2.Regular) :
    ∀ r ∈ Tasks.runAll statements [], RowCoherent r ∧
      ∃ r' ∈ Tasks.runAll more (Tasks.runAll statements []), RowSettled r r' := by
  have empty : TableCoherent [] := ⟨List.nodup_nil, fun r hr => by cases hr⟩
  obtain ⟨ok, -⟩ := empty.runAll fun s hs => regular s (List.mem_append_left _ hs)
  obtain ⟨-, later⟩ := ok.runAll fun s hs => regular s (List.mem_append_right _ hs)
  exact fun r hr => ⟨ok.rows r hr, later r hr⟩

/-- `Create` stores the status of its argument. -/
theorem create_incoherent : ∃ r, Tasks.runAll [(sampleEnv 0 ⟨0⟩,
      .create { requestedTask sampleTask "" .empty ⟨1⟩ 0 with status := .completed })] [] = [r] ∧
    r.status = .completed ∧ r.completedAt = none :=
  ⟨_, rfl, rfl, rfl⟩

/-- A task is claimed, completed and deleted, and claimed once more. -/
theorem deleted_task_settled : ∃ r,
    Tasks.runAll [(sampleEnv 0 ⟨0⟩, .create (requestedTask sampleTask "" .empty ⟨1⟩ 0)),
      (sampleEnv 1 ⟨0⟩, .claimForProcessing ⟨1⟩ ⟨1⟩ "w" 1), (sampleEnv 2 ⟨0⟩, .complete ⟨1⟩ ⟨1⟩ 2),
      (sampleEnv 3 ⟨0⟩, .softDelete ⟨1⟩ ⟨1⟩ 3)] [] = [r] ∧ r.deletedAt = some 3 ∧ RowCoherent r ∧
    ∃ r' ∈ Tasks.runAll [(sampleEnv 4 ⟨0⟩, .claimForProcessing ⟨1⟩ ⟨1⟩ "w" 4)] [r], RowSettled r r' := by
  obtain ⟨statements, hs⟩ : ∃ statements : List (Env × TaskOp), statements =
      [(sampleEnv 0 ⟨0⟩, .create (requestedTask sampleTask "" .empty ⟨1⟩ 0)),
        (sampleEnv 1 ⟨0⟩, .claimForProcessing ⟨1⟩ ⟨1⟩ "w" 1), (sampleEnv 2 ⟨0⟩, .complete ⟨1⟩ ⟨1⟩ 2),
        (sampleEnv 3 ⟨0⟩, .softDelete ⟨1⟩ ⟨1⟩ 3)] := ⟨_, rfl⟩
  obtain ⟨r, ran, deleted⟩ : ∃ r, Tasks.runAll statements [] = [r] ∧ r.deletedAt = some 3 := by
    subst hs
    exact ⟨_, rfl, rfl⟩
  have regular : ∀ s ∈ statements ++ [(sampleEnv 4 ⟨0⟩, TaskOp.claimForProcessing ⟨1⟩ ⟨1⟩ "w" 4)], s.2.Regular := by
    subst hs
    simp only [List.cons_append, List.nil_append, List.forall_mem_cons, List.not_mem_nil, false_imp_iff, implies_true, and_true]
    exact ⟨rfl, trivial, trivial, trivial, trivial⟩
  obtain ⟨ok, later⟩ := task_rows_coherent regular r (by rw [ran]; exact List.mem_singleton_self r)
  rw [ran] at later
  exact ⟨r, hs ▸ ran, deleted, ok, later⟩

end Windylane
