import Windylane.Domain
import Windylane.Lib.Table

/-! The `tasks` table and the statements on it, after `internal/storage/postgres/postgres_storage.go`. Each
    function is one statement or one transaction, so it is one atomic step: it answers an error or a response
    and gives the table after it. `locked` are the rows another transaction holds, which `SKIP LOCKED` skips. -/

namespace Windylane.Tasks

/-- A duration as the table keeps it, in whole milliseconds. -/
def milliseconds (d : Duration) : Duration := d.tdiv 1000 * 1000

/-- A row keeps what `Create` inserts; the other columns start NULL. -/
def inserted (task : Task) : Task :=
  { task with
    taskTimeout := milliseconds task.taskTimeout
    visibilityTimeout := milliseconds task.visibilityTimeout
    lockedBy := none
    lastHeartbeatAt := none
    completedAt := none
    deletedAt := none
    dispatchedAt := none
    lastError := "" }

/-- A row with the id, or with the key that is unique in its organisation and queue; no key is no conflict. -/
def conflicts (task row : Task) : Bool :=
  row.id = task.id || (task.idempotencyKey ≠ "" && row.orgID = task.orgID && row.queue = task.queue &&
    row.idempotencyKey = task.idempotencyKey)

def create (task : Task) (rows : List Task) : Except Err Unit × List Task :=
  if rows.any (conflicts task) then (.error .duplicateIdempotencyKey, rows) else (.ok (), rows ++ [inserted task])

def getByID (orgID id : UUID) (rows : List Task) : Except Err Task :=
  match rows.find? fun r => r.orgID = orgID && r.id = id && r.deletedAt.isNone with
  | some task => .ok task
  | none => .error .taskNotFound

def findByIdempotencyKey (orgID : UUID) (queue key : String) (rows : List Task) : Except Err Task :=
  match rows.find? fun r => r.orgID = orgID && r.queue = queue && key ≠ "" && r.idempotencyKey = key with
  | some task => .ok task
  | none => .error .taskNotFound

/-- Visible, and pending or with an expired lease. -/
def claimable (orgID id : UUID) (now : Time) (locked : List UUID) (r : Task) : Bool :=
  r.orgID = orgID && r.id = id && r.deletedAt.isNone && r.visibleAt ≤ now &&
    (r.status = .pending || (r.status = .processing && r.visibleAt < now)) && r.id ∉ locked

/-- The columns that a claim sets, from the task the claim answers. -/
def claimed (t : Task) (now : Time) (r : Task) : Task :=
  { r with
    status := t.status
    lockedBy := t.lockedBy
    attempts := t.attempts
    visibleAt := t.visibleAt
    lastHeartbeatAt := t.lastHeartbeatAt
    updatedAt := now }

def claimForProcessing (orgID id : UUID) (workerID : String) (now : Time) (locked : List UUID) (rows : List Task) :
    Except Err Task × List Task :=
  match rows.find? (claimable orgID id now locked) with
  | none => (.error .taskAlreadyLocked, rows)
  | some t =>
    let t := t.markProcessing workerID now
    (.ok t, Table.update (fun r => r.orgID = orgID && r.id = t.id) (claimed t now) rows)

/-- `UPDATE tasks … WHERE p`, which answers the error `missed` when no row matched. -/
def exec (p : Task → Bool) (set : Task → Task) (missed : Err) (rows : List Task) : Except Err Unit × List Task :=
  if rows.any p then (.ok (), Table.update p set rows) else (.error missed, rows)

/-- A task that is being processed. -/
def processing (orgID id : UUID) (r : Task) : Bool := r.orgID = orgID && r.id = id && r.status = .processing

def beaten (visibilityTimeout : Duration) (now : Time) (r : Task) : Task :=
  { r with visibleAt := now + visibilityTimeout, lastHeartbeatAt := some now, updatedAt := now }

def heartbeat (orgID id : UUID) (workerID : String) (visibilityTimeout : Duration) (now : Time) :
    List Task → Except Err Unit × List Task :=
  exec (fun r => processing orgID id r && r.lockedBy = some workerID) (beaten visibilityTimeout now) .taskAlreadyLocked

def completed (now : Time) (r : Task) : Task :=
  { r with
    status := .completed
    completedAt := some now
    lockedBy := none
    lastHeartbeatAt := none
    updatedAt := now }

def complete (orgID id : UUID) (now : Time) : List Task → Except Err Unit × List Task :=
  exec (processing orgID id) (completed now) .taskNotFound

def failed (errMsg : String) (nextStatus : TaskStatus) (visibleAt now : Time) (r : Task) : Task :=
  { r with
    status := nextStatus
    lastError := errMsg
    visibleAt := visibleAt
    lockedBy := none
    lastHeartbeatAt := none
    dispatchedAt := none
    updatedAt := now }

def fail (orgID id : UUID) (errMsg : String) (nextStatus : TaskStatus) (visibleAt now : Time) :
    List Task → Except Err Unit × List Task :=
  exec (processing orgID id) (failed errMsg nextStatus visibleAt now) .taskNotFound

def deadLettered (errMsg : String) (now : Time) (r : Task) : Task :=
  { r with
    status := .deadLetter
    lastError := errMsg
    lockedBy := none
    lastHeartbeatAt := none
    updatedAt := now }

def moveToDeadLetter (orgID id : UUID) (errMsg : String) (now : Time) : List Task → Except Err Unit × List Task :=
  exec (processing orgID id) (deadLettered errMsg now) .taskNotFound

/-- A task whose lease expired. -/
def expired (orgID : UUID) (queue : String) (now : Time) (locked : List UUID) (r : Task) : Bool :=
  r.orgID = orgID && r.queue = queue && r.status = .processing && r.visibleAt < now && r.id ∉ locked

def reclaimed (now : Time) (r : Task) : Task :=
  { r with
    status := .pending
    lockedBy := none
    lastHeartbeatAt := none
    visibleAt := now
    dispatchedAt := none
    updatedAt := now }

/-- The rows are scanned before they are updated, so the answer has them as they were. -/
def reclaimExpired (orgID : UUID) (queue : String) (now : Time) (limit : Nat) (locked : List UUID) (rows : List Task) :
    Except Err (List Task) × List Task :=
  let found := Table.firstBy (fun a b => a.visibleAt ≤ b.visibleAt) limit (rows.filter (expired orgID queue now locked))
  (.ok found, Table.update (fun r => r.orgID = orgID && r.id ∈ found.map (·.id)) (reclaimed now) rows)

def requeued (now : Time) (r : Task) : Task :=
  { r with
    status := .pending
    attempts := 0
    lockedBy := none
    lastHeartbeatAt := none
    lastError := ""
    visibleAt := now
    dispatchedAt := none
    completedAt := none
    updatedAt := now }

def requeue (orgID id : UUID) (now : Time) : List Task → Except Err Unit × List Task :=
  exec (fun r => r.orgID = orgID && r.id = id &&
      (r.status = .failed || r.status = .deadLetter || r.status = .cancelled) && r.deletedAt.isNone)
    (requeued now) .invalidStateTransition

def cancelled (now : Time) (r : Task) : Task :=
  { r with status := .cancelled, lockedBy := none, lastHeartbeatAt := none, updatedAt := now }

/-- `RETURNING` answers the row as updated. -/
def cancel (orgID id : UUID) (now : Time) (rows : List Task) : Except Err Task × List Task :=
  let p := fun r : Task => r.orgID = orgID && r.id = id && r.status = .pending && r.deletedAt.isNone
  match rows.find? p with
  | some r => (.ok (cancelled now r), Table.update p (cancelled now) rows)
  | none => (.error .invalidStateTransition, rows)

def softDelete (orgID id : UUID) (now : Time) : List Task → Except Err Unit × List Task :=
  exec (fun r => r.orgID = orgID && r.id = id && r.deletedAt.isNone && r.status.terminal)
    (fun r => { r with deletedAt := some now, updatedAt := now }) .invalidStateTransition

def markDispatched (orgID id : UUID) (now : Time) : List Task → Except Err Unit × List Task :=
  exec (fun r => r.orgID = orgID && r.id = id && r.status = .pending)
    (fun r => { r with dispatchedAt := some now, updatedAt := now }) .taskNotFound

/-- An empty queue or status does not filter. -/
def listTasks (orgID : UUID) (queue status : String) (after : Cursor) (limit : Nat) (rows : List Task) : List Task :=
  Table.firstBy (newestFirst fun r => (r.createdAt, r.id)) limit
    (rows.filter fun r => r.orgID = orgID && r.deletedAt.isNone && (queue = "" || r.queue = queue) &&
      (status = "" || r.status.text = status) && after.passed (r.createdAt, r.id))

def queueStats (orgID : UUID) (queue : String) (rows : List Task) : QueueStats :=
  let rows := rows.filter fun r => r.orgID = orgID && r.queue = queue && r.deletedAt.isNone
  let counts := [TaskStatus.pending, .processing, .completed, .failed, .deadLetter, .cancelled].map fun status =>
    (status.text, rows.countP fun r => r.status = status)
  ⟨queue, counts.filter fun c => c.2 ≠ 0, rows.length⟩

/-- `dbNow` is the `now()` of the database. -/
def listUndispatchedPending (orgID : UUID) (queue : String) (limit : Nat) (dbNow : Time) (rows : List Task) :
    List Task :=
  Table.firstBy (fun a b => a.createdAt ≤ b.createdAt) limit
    (rows.filter fun r => r.orgID = orgID && r.queue = queue && r.status = .pending && r.dispatchedAt.isNone &&
      r.visibleAt ≤ dbNow && r.deletedAt.isNone)

/-- Pending and not deleted. -/
def dispatchable (r : Task) : Bool := r.status = .pending && r.deletedAt.isNone

/-- The tasks of all organisations, after an id and in the order of the ids. -/
def listDispatchableTasks (afterID : UUID) (limit : Nat) (rows : List Task) : List Task :=
  Table.firstBy (fun a b => a.id < b.id) limit (rows.filter fun r => dispatchable r && afterID < r.id)

/-! ### Workers -/

/-- The statement writes the creation time of its argument to `updated_at` as well. -/
def upsertWorkerHeartbeat (worker : Worker) (rows : List Worker) : List Worker :=
  let p := fun r : Worker => r.orgID = worker.orgID && r.id = worker.id
  if rows.any p then
    Table.update p (fun r => { r with
      queue := worker.queue
      status := worker.status
      lastHeartbeatAt := worker.lastHeartbeatAt
      updatedAt := worker.createdAt }) rows
  else rows ++ [{ worker with updatedAt := worker.createdAt }]

def listWorkers (orgID : UUID) (rows : List Worker) : List Worker :=
  Table.firstBy (fun a b => a.id < b.id) rows.length (rows.filter fun r => r.orgID = orgID)

end Windylane.Tasks
