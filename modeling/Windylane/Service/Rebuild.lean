import Windylane.Machine

/-! The rebuild of the Redis keys from the table of tasks, after `internal/usecase/redis_rebuild.go`. -/

namespace Windylane

open Script

structure RedisRebuildResult where
  scanned : Nat
  pending : Nat
  delayed : Nat
deriving DecidableEq

/-- `fmt.Errorf` with an error that is wrapped. -/
def wrap (text : String) (e : Err) : Err := .other (text ++ ": " ++ e.message)

/-- What `Rebuild` answers: the counts so far, and the error it stopped at. -/
abbrev Rebuilt := RedisRebuildResult × Option Err

/-- The last statement of a turn. -/
def markRebuilt (task : Task) (now : Time) (result : RedisRebuildResult) : Script Rebuilt := do
  match ← tryTask (.markDispatched task.orgID task.id now) with
  | .error e => pure (result, some (wrap ("mark task " ++ task.id.text ++ " dispatched") e))
  | .ok _ => pure (result, none)

/-- One turn of the inner loop. -/
def rebuildTask (task : Task) (result : RedisRebuildResult) : Script Rebuilt := do
  let result := { result with scanned := result.scanned + 1 }
  match ← tryBroker (.remove task.orgID task.queue task.id) with
  | .error e => pure (result, some (wrap ("clear task " ++ task.id.text ++ " broker state") e))
  | .ok _ =>
    let now ← now
    if now < task.visibleAt then
      match ← tryBroker (.enqueueDelayed task.orgID task.queue task.id task.priority (Time.sub task.visibleAt now)) with
      | .error e => pure (result, some (wrap ("rebuild delayed task " ++ task.id.text) e))
      | .ok _ => markRebuilt task now { result with delayed := result.delayed + 1 }
    else
      match ← tryBroker (.enqueue task.orgID task.queue task.id task.priority) with
      | .error e => pure (result, some (wrap ("rebuild pending task " ++ task.id.text) e))
      | .ok _ => markRebuilt task now { result with pending := result.pending + 1 }

/-- The inner loop, over one batch. -/
def rebuildTasks : List Task → RedisRebuildResult → Script Rebuilt
  | [], result => pure (result, none)
  | task :: rest, result => do
    match ← rebuildTask task result with
    | (result, some e) => pure (result, some e)
    | (result, none) => rebuildTasks rest result

def rebuildBatchSize : Nat := 250

/-- The outer loop, for at most `turns` turns; `none` when they are used up. -/
def rebuildAfter : Nat → UUID → RedisRebuildResult → Script (Option Rebuilt)
  | 0, _, _ => pure none
  | turns + 1, afterID, result => do
    match ← tryTask (.listDispatchableTasks afterID rebuildBatchSize) with
    | .error e => pure (some (result, some (wrap "scan dispatchable tasks" e)))
    | .ok [] => pure (some (result, none))
    | .ok (task :: rest) =>
      match ← rebuildTasks (task :: rest) result with
      | (result, some e) => pure (some (result, some e))
      | (result, none) =>
        if (task :: rest).length < rebuildBatchSize then pure (some (result, none))
        else rebuildAfter turns ((task :: rest).getLast (List.cons_ne_nil _ _)).id result

def rebuild (turns : Nat) : Script (Option Rebuilt) := rebuildAfter turns UUID.nil ⟨0, 0, 0⟩

end Windylane
