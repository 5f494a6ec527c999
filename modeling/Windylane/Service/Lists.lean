import Windylane.Service.Metrics
import Windylane.Service.Workflows
import Windylane.Service.Executions
import Windylane.Service.Webhooks

/-! The list functions of `internal/storage/postgres`, which the services call after their own checks, the text of a
    cursor, and a client that follows the cursors. -/

namespace Windylane

open Conc Script

/-! ### Cursors -/

/-- The formats a cursor is made of: a time as `time.RFC3339Nano` writes it in UTC, an id, and base64. What one writes
    the other reads. -/
structure CursorFormat where
  formatTime : Time → String
  parseTime : String → Option Time
  uuidParse : String → Option UUID
  encodeToString : String → String
  decodeString : String → Option String
  parseTime_formatTime : ∀ t, parseTime (formatTime t) = some t
  formatTime_plain : ∀ t, '|' ∉ (formatTime t).toList
  uuidParse_text : ∀ id : UUID, uuidParse id.text = some id
  decodeString_encodeToString : ∀ s, decodeString (encodeToString s) = some s
  encodeToString_ne : ∀ s, s ≠ "" → encodeToString s ≠ ""

namespace CursorFormat

def encodeCursor (f : CursorFormat) (key : Time × UUID) : String :=
  f.encodeToString (f.formatTime key.1 ++ "|" ++ key.2.text)

def decodeCursor (f : CursorFormat) (cursor : String) : Option (Time × UUID) := do
  let raw ← f.decodeString cursor
  -- `strings.SplitN` at the first bar.
  match raw.toList.dropWhile (· ≠ '|') with
  | [] => none
  | _ :: id =>
    let createdAt ← f.parseTime (String.ofList (raw.toList.takeWhile (· ≠ '|')))
    let id ← f.uuidParse (String.ofList id)
    pure (createdAt, id)

end CursorFormat

/-- The host reads and writes cursors in the format `f`. -/
structure Host.Formats (h : Host) (f : CursorFormat) : Prop where
  encode : h.encodeCursor = f.encodeCursor
  decode : h.decodeCursor = f.decodeCursor

/-! ### The lists of the repository -/

namespace Postgres

def listWorkflows (h : Host) (orgID : UUID) (filter : WorkflowFilter) : Script (Page Workflow) :=
  h.page (fun w => (w.createdAt, w.id)) filter.cursor filter.limit fun after limit =>
    canvas (.listWorkflows orgID filter.status after limit)

def listWorkflowExecutions (h : Host) (orgID workflowID : UUID) (filter : WorkflowExecutionFilter) :
    Script (Page WorkflowExecution) :=
  h.page (fun x => (x.createdAt, x.id)) filter.cursor filter.limit fun after limit =>
    canvas (.listWorkflowExecutions orgID workflowID filter.status after limit)

def listWebhookDeliveries (h : Host) (orgID : UUID) (filter : WebhookDeliveryFilter) : Script (Page WebhookDelivery) :=
  h.page (fun d => (d.createdAt, d.id)) filter.cursor filter.limit fun after limit =>
    hook (.listWebhookDeliveries orgID filter.endpointID filter.status filter.eventType after limit)

end Postgres

/-! ### The rows that a filter asks for -/

def TaskFilter.matching (orgID : UUID) (filter : TaskFilter) (r : Task) : Bool :=
  r.orgID = orgID && r.deletedAt.isNone && (filter.queue = "" || r.queue = filter.queue) &&
    (filter.status = "" || r.status.text = filter.status)

def WorkflowFilter.matching (orgID : UUID) (filter : WorkflowFilter) (w : Workflow) : Bool :=
  w.orgID = orgID && w.deletedAt.isNone && (filter.status = "" || w.status.text = filter.status)

def WorkflowExecutionFilter.matching (orgID workflowID : UUID) (filter : WorkflowExecutionFilter)
    (x : WorkflowExecution) : Bool :=
  x.orgID = orgID && x.workflowID = workflowID && (filter.status = "" || x.status.text = filter.status)

def WebhookDeliveryFilter.matching (orgID : UUID) (filter : WebhookDeliveryFilter) (d : WebhookDelivery) : Bool :=
  d.orgID = orgID && (filter.endpointID = none || filter.endpointID = some d.endpointID) &&
    (filter.status = "" || d.status.text = filter.status) &&
    (filter.eventType = "" || d.eventType.text = filter.eventType)

/-! ### Following the cursors -/

/-- At most `count` pages from the `n`-th fetch on: each is fetched with the cursor of the page before, until a page
    has none. -/
def follow {ρ : Type} (fetch : Nat → String → Except Err (Page ρ)) :
    (count n : Nat) → (cursor : String) → Except Err (List (Page ρ))
  | 0, _, _ => .ok []
  | count + 1, n, cursor =>
    match fetch n cursor with
    | .error e => .error e
    | .ok page =>
      if page.nextCursor = "" then .ok [page]
      else match follow fetch count (n + 1) page.nextCursor with
        | .error e => .error e
        | .ok pages => .ok (page :: pages)

end Windylane
