import Windylane.Domain
import Windylane.Lib.Table

/-! The webhook tables and the statements on them, after `internal/storage/postgres/webhook_repository.go`. -/

namespace Windylane.Webhooks

structure Store where
  endpoints : List WebhookEndpoint
  deliveries : List WebhookDelivery
deriving DecidableEq

/-- `chk_webhook_delivery_attempts`. -/
def attemptsOK (d : WebhookDelivery) : Bool :=
  0 ≤ d.attemptCount && 0 < d.maxAttempts && d.attemptCount ≤ d.maxAttempts

theorem attemptsOK_iff {d : WebhookDelivery} :
    attemptsOK d = true ↔ 0 ≤ d.attemptCount ∧ 0 < d.maxAttempts ∧ d.attemptCount ≤ d.maxAttempts := by
  simp [attemptsOK, and_assoc]

/-- `chk_webhook_endpoint_event_types`. -/
def eventTypesOK (e : WebhookEndpoint) : Bool := !e.eventTypes.isEmpty && e.eventTypes.all WebhookEventType.valid

def createWebhookEndpoint (e : WebhookEndpoint) (s : Store) : Except Err Unit × Store :=
  if s.endpoints.any (fun r => r.id = e.id) then
    (.error (.other "postgres: create webhook endpoint: duplicate key"), s)
  else if !eventTypesOK e then (.error (.other "postgres: create webhook endpoint: event types"), s)
  else (.ok (), { s with endpoints := s.endpoints ++ [{ e with deletedAt := none }] })

/-- The columns that `UpdateWebhookEndpoint` sets, the secret among them. -/
def replaced (e r : WebhookEndpoint) : WebhookEndpoint :=
  { r with
    name := e.name
    url := e.url
    secretHash := e.secretHash
    secretCiphertext := e.secretCiphertext
    eventTypes := e.eventTypes
    isActive := e.isActive
    updatedAt := e.updatedAt }

/-- An endpoint that is not deleted. -/
def present (orgID id : UUID) (r : WebhookEndpoint) : Bool := r.orgID = orgID && r.id = id && r.deletedAt.isNone

def updateWebhookEndpoint (e : WebhookEndpoint) (s : Store) : Except Err Unit × Store :=
  if !(s.endpoints.any (present e.orgID e.id)) then (.error .webhookEndpointNotFound, s)
  else if !eventTypesOK e then (.error (.other "postgres: update webhook endpoint: event types"), s)
  else (.ok (), { s with endpoints := Table.update (present e.orgID e.id) (replaced e) s.endpoints })

def removed (now : Time) (r : WebhookEndpoint) : WebhookEndpoint :=
  { r with deletedAt := some now, isActive := false, updatedAt := now }

def softDeleteWebhookEndpoint (orgID id : UUID) (now : Time) (s : Store) : Except Err Unit × Store :=
  if !(s.endpoints.any (present orgID id)) then (.error .webhookEndpointNotFound, s)
  else (.ok (), { s with endpoints := Table.update (present orgID id) (removed now) s.endpoints })

def listWebhookEndpoints (orgID : UUID) (s : Store) : List WebhookEndpoint :=
  Table.firstBy (newestFirst fun r => (r.createdAt, r.id)) s.endpoints.length
    (s.endpoints.filter fun e => e.orgID = orgID && e.deletedAt.isNone)

def getWebhookEndpoint (orgID id : UUID) (s : Store) : Except Err WebhookEndpoint :=
  match s.endpoints.find? fun e => e.orgID = orgID && e.id = id && e.deletedAt.isNone with
  | some endpoint => .ok endpoint
  | none => .error .webhookEndpointNotFound

def listActiveWebhookEndpointsForEvent (orgID : UUID) (eventType : WebhookEventType) (s : Store) :
    List WebhookEndpoint :=
  Table.firstBy (fun a b => a.createdAt < b.createdAt || (a.createdAt = b.createdAt && a.id < b.id)) s.endpoints.length
    (s.endpoints.filter fun e => e.orgID = orgID && e.isActive && e.deletedAt.isNone && eventType ∈ e.eventTypes)

/-- The id is the primary key, the endpoint must exist, and the attempts must be in range. -/
def createWebhookDelivery (d : WebhookDelivery) (s : Store) : Except Err Unit × Store :=
  if s.deliveries.any (fun r => r.id = d.id) then
    (.error (.other "postgres: create webhook delivery: duplicate key"), s)
  else if !(s.endpoints.any fun e => e.orgID = d.orgID && e.id = d.endpointID) then
    (.error (.other "postgres: create webhook delivery: no such endpoint"), s)
  else if !attemptsOK d then
    (.error (.other "postgres: create webhook delivery: attempts out of range"), s)
  else (.ok (), { s with deliveries := s.deliveries ++ [d] })

def getWebhookDelivery (orgID id : UUID) (s : Store) : Except Err WebhookDelivery :=
  match s.deliveries.find? fun d => d.orgID = orgID && d.id = id with
  | some delivery => .ok delivery
  | none => .error .webhookDeliveryNotFound

/-- An empty status or event type does not filter. -/
def listWebhookDeliveries (orgID : UUID) (endpointID : Option UUID) (status eventType : String) (after : Cursor)
    (limit : Nat) (s : Store) : List WebhookDelivery :=
  Table.firstBy (newestFirst fun r => (r.createdAt, r.id)) limit
    (s.deliveries.filter fun d => d.orgID = orgID && (endpointID = none || endpointID = some d.endpointID) &&
      (status = "" || d.status.text = status) && (eventType = "" || d.eventType.text = eventType) &&
      after.passed (d.createdAt, d.id))

def due (now : Time) (locked : List UUID) (d : WebhookDelivery) : Bool :=
  (d.status = .pending || d.status = .retrying) && d.attemptCount < d.maxAttempts &&
    (match d.nextAttemptAt with
      | none => true
      | some t => t ≤ now) && d.id ∉ locked

/-- `ORDER BY next_attempt_at ASC NULLS FIRST, created_at ASC`. -/
def dueBefore (a b : WebhookDelivery) : Bool :=
  match a.nextAttemptAt, b.nextAttemptAt with
  | none, some _ => true
  | some _, none => false
  | none, none => a.createdAt ≤ b.createdAt
  | some s, some t => s < t || (s = t && a.createdAt ≤ b.createdAt)

/-- What a claim writes to a due delivery. -/
def claimed (now : Time) (d : WebhookDelivery) : WebhookDelivery :=
  { d with
    status := .delivering
    attemptCount := d.attemptCount + 1
    lastAttemptAt := some now
    nextAttemptAt := none
    updatedAt := now }

def claimDueWebhookDeliveries (now : Time) (limit : Int) (locked : List UUID) (s : Store) :
    Except Err (List WebhookDelivery) × Store :=
  let limit := if limit ≤ 0 ∨ 1000 < limit then 100 else limit
  let candidates := Table.firstBy dueBefore limit.toNat (s.deliveries.filter (due now locked))
  (.ok (candidates.map (claimed now)),
    { s with deliveries := Table.update (fun d => d.id ∈ candidates.map (·.id)) (claimed now) s.deliveries })

/-- The columns that `UpdateWebhookDelivery` sets. -/
def stored (d r : WebhookDelivery) : WebhookDelivery :=
  { r with
    status := d.status
    attemptCount := d.attemptCount
    maxAttempts := d.maxAttempts
    nextAttemptAt := d.nextAttemptAt
    lastAttemptAt := d.lastAttemptAt
    responseStatus := d.responseStatus
    responseBody := d.responseBody
    lastError := d.lastError
    updatedAt := d.updatedAt }

/-- Not guarded by the status: the row is overwritten whatever it holds. -/
def updateWebhookDelivery (d : WebhookDelivery) (s : Store) : Except Err Unit × Store :=
  let p := fun r : WebhookDelivery => r.orgID = d.orgID && r.id = d.id
  if !(s.deliveries.any p) then (.error .webhookDeliveryNotFound, s)
  else if !attemptsOK d then (.error (.other "postgres: update webhook delivery: attempts out of range"), s)
  else (.ok (), { s with deliveries := Table.update p (stored d) s.deliveries })

/-- What a manual retry writes to a delivery. -/
def reopened (now : Time) (r : WebhookDelivery) : WebhookDelivery :=
  { r with
    status := .pending
    attemptCount := 0
    nextAttemptAt := some now
    lastAttemptAt := none
    responseStatus := none
    responseBody := none
    lastError := none
    updatedAt := now }

/-- The `UPDATE … RETURNING` of `RetryWebhookDelivery`; `none` when no row matched. -/
def retryWebhookDelivery (orgID id : UUID) (now : Time) (s : Store) : Option WebhookDelivery × Store :=
  let p := fun r : WebhookDelivery => r.orgID = orgID && r.id = id && (r.status = .failed || r.status = .retrying)
  match s.deliveries.find? p with
  | some r => (some (reopened now r), { s with deliveries := Table.update p (reopened now) s.deliveries })
  | none => (none, s)

end Windylane.Webhooks
