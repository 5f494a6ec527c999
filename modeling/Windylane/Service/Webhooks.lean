import Windylane.Service.Tasks

/-! The webhook delivery worker, the delivery log and the endpoints, after
    `internal/usecase/webhook_delivery_worker.go`, `webhook_delivery_logs.go` and `webhook_service.go`. -/

namespace Windylane

open Script

/-- The doubling loop of `backoff`, entered `rounds` times at most. -/
def backoffLoop (maxBackoff : Duration) : Nat → Duration → Duration
  | 0, backoff => if maxBackoff < backoff then maxBackoff else backoff
  | rounds + 1, backoff =>
    if maxBackoff ≤ backoff then if maxBackoff < backoff then maxBackoff else backoff
    else if maxBackoff / 2 < backoff then maxBackoff
    else backoffLoop maxBackoff rounds (backoff * 2)

/-- `WebhookDeliveryWorker.backoff`, with the defaults of `NewWebhookDeliveryWorker`. -/
def Host.backoff (h : Host) (attempt : Int) : Duration :=
  let initial := if h.webhookInitialBackoff ≤ 0 then seconds 5 else h.webhookInitialBackoff
  let maxBackoff := if h.webhookMaxBackoff ≤ 0 then seconds 3600 else h.webhookMaxBackoff
  backoffLoop maxBackoff (attempt - 1).toNat initial

def Host.batchSize (h : Host) : Int := if h.webhookBatchSize ≤ 0 then 50 else h.webhookBatchSize

/-- `WebhookDeliveryWorker.recordMetric`. -/
def deliveryMetric (delivery : WebhookDelivery) (eventType : MetricEventType) (now : Time) (errorCode : String) :
    NewMetricEventInput where
  organizationID := delivery.orgID
  source := .eventForge
  eventType := eventType
  resourceType := .webhookDelivery
  resourceID := delivery.id
  queue := ""
  status := delivery.status.text
  durationMS := none
  occurredAt := now
  attempt := some delivery.attemptCount
  maxAttempts := some delivery.maxAttempts
  errorCode := errorCode
  transitionKey := toString delivery.attemptCount ++ ":" ++ eventType.text

/-- The delivery that `recordFailure` stores: failed when the attempts are spent, and otherwise due again. -/
def failedDelivery (h : Host) (delivery : WebhookDelivery) (response : Option WebhookHTTPResponse) (message : String)
    (now : Time) : WebhookDelivery :=
  let delivery := { delivery with
    lastError := some message
    updatedAt := now
    responseStatus := response.map WebhookHTTPResponse.statusCode
    responseBody := response.map WebhookHTTPResponse.body }
  if delivery.maxAttempts ≤ delivery.attemptCount then { delivery with status := .failed, nextAttemptAt := none }
  else { delivery with status := .retrying, nextAttemptAt := some (now + h.backoff delivery.attemptCount) }

/-- `recordFailure`; the answer is whether the result was stored. -/
def recordFailure (h : Host) (delivery : WebhookDelivery) (response : Option WebhookHTTPResponse) (message : String)
    (now : Time) : Script Bool := do
  let delivery := failedDelivery h delivery response message now
  match ← tryHook (.updateWebhookDelivery delivery) with
  | .error _ => pure false
  | .ok _ =>
    record (deliveryMetric delivery .deliveryFailed now "delivery_error")
    if delivery.status = .failed then record (deliveryMetric delivery .deliveryExhausted now "delivery_error")
    else record (deliveryMetric delivery .deliveryRetryScheduled now "delivery_error")
    pure true

def deliveredDelivery (delivery : WebhookDelivery) (response : WebhookHTTPResponse) (now : Time) : WebhookDelivery :=
  { delivery with
    status := .delivered
    nextAttemptAt := none
    responseStatus := some response.statusCode
    responseBody := some response.body
    lastError := none
    updatedAt := now }

/-- The part of `process` after the request was answered. -/
def recordResponse (h : Host) (delivery : WebhookDelivery) (now : Time) :
    Except String WebhookHTTPResponse → Script Bool
  | .error e => recordFailure h delivery none e now
  | .ok response =>
    if response.statusCode < 200 ∨ 300 ≤ response.statusCode then
      recordFailure h delivery (some response) ("webhook returned HTTP " ++ toString response.statusCode) now
    else do
      let delivery := deliveredDelivery delivery response now
      match ← tryHook (.updateWebhookDelivery delivery) with
      | .error _ => pure false
      | .ok _ =>
        record (deliveryMetric delivery .deliverySucceeded now "")
        pure true

/-- `WebhookDeliveryWorker.process`. -/
def processDelivery (h : Host) (delivery : WebhookDelivery) (now : Time) : Script Bool := do
  match ← tryHook (.getWebhookEndpoint delivery.orgID delivery.endpointID) with
  | .error e => recordFailure h delivery none e.message now
  | .ok endpoint =>
    if !endpoint.isActive then recordFailure h delivery none "webhook endpoint is inactive" now
    else
      match h.decrypt endpoint.secretCiphertext with
      | .error e => recordFailure h delivery none e now
      | .ok secret =>
        let timestamp := now / 1000000
        let response ← sys (.send {
          url := endpoint.url
          event := delivery.eventType
          delivery := delivery.id
          timestamp := timestamp
          signature := h.sign secret (toString timestamp) delivery.payload
          body := delivery.payload })
        recordResponse h delivery now response

/-- The claimed deliveries one after the other; a delivery that fails does not stop the others. -/
def processDeliveries (h : Host) (now : Time) : List WebhookDelivery → Script Unit
  | [] => pure ()
  | delivery :: rest => do
    record (deliveryMetric delivery .deliveryStarted now "")
    let _ ← processDelivery h delivery now
    processDeliveries h now rest

/-- `ProcessDue`, at the time its caller reads. -/
def processDue (h : Host) : Script Unit := do
  let now ← now
  let deliveries ← hook (.claimDueWebhookDeliveries now h.batchSize)
  processDeliveries h now deliveries

/-- `RetryDelivery`, and `RetryWebhookDelivery` under it. -/
def retryDelivery (orgID id : UUID) : Script WebhookDelivery := do
  let delivery ← hook (.getWebhookDelivery orgID id)
  if delivery.status ≠ .failed ∧ delivery.status ≠ .retrying then fail .invalidStateTransition
  else
    let now ← now
    match ← hook (.retryWebhookDelivery orgID id now) with
    | some delivery => pure delivery
    | none =>
      let _ ← hook (.getWebhookDelivery orgID id)
      fail .invalidStateTransition

def getDelivery (orgID id : UUID) : Script WebhookDelivery := hook (.getWebhookDelivery orgID id)

structure WebhookDeliveryFilter where
  endpointID : Option UUID
  status : String
  eventType : String
  cursor : String
  limit : Int

def listDeliveries (h : Host) (orgID : UUID) (filter : WebhookDeliveryFilter) : Script (Page WebhookDelivery) :=
  if filter.status ∉ ["", "pending", "delivering", "delivered", "retrying", "failed"] then fail .invalidInput
  else if filter.eventType ∉ ["", "task.created", "task.processing", "task.completed", "task.failed", "task.dead_letter",
      "task.cancelled"] then fail .invalidInput
  else h.page (fun d => (d.createdAt, d.id)) filter.cursor filter.limit fun after limit =>
    hook (.listWebhookDeliveries orgID filter.endpointID filter.status filter.eventType after limit)

/-! ### Endpoints -/

def isLocalWebhookHost (h : Host) (host : String) : Bool := h.equalFold host "localhost" || h.isLoopback host

def validateURL (h : Host) (raw : String) : Bool :=
  match h.parseRequestURI raw with
  | none => false
  | some url =>
    if url.host = "" then false
    else
      match h.toLower url.scheme with
      | "https" => true
      | "http" => h.allowInsecureLocal && isLocalWebhookHost h url.hostname
      | _ => false

/-- `normalizeWebhookEventTypes`: without repetitions; none at all, or one that is not valid, is an error. -/
def normalizeWebhookEventTypes (values : List WebhookEventType) : Option (List WebhookEventType) :=
  if values.isEmpty || values.any fun t => !t.valid then none else some (values.foldl keep [])
where
  keep (seen : List WebhookEventType) (t : WebhookEventType) : List WebhookEventType :=
    if t ∈ seen then seen else seen ++ [t]

def hashWebhookSecret (h : Host) (secret : String) : String := h.sha256 secret

def generateWebhookSecret : Script String := do
  match ← sys .newSecret with
  | .ok secret => pure secret
  | .error e => fail (.other e)

/-- `WebhookSecretCipher.Encrypt`. -/
def encryptSecret (secret : String) : Script String := do
  match ← sys (.encrypt secret) with
  | .ok ciphertext => pure ciphertext
  | .error e => fail (.other e)

def validEndpointName (name : String) : Bool := name ≠ "" && name.utf8ByteSize ≤ 255

structure CreateWebhookEndpointInput where
  orgID : UUID
  name : String
  url : String
  secret : String
  eventTypes : List WebhookEventType
  isActive : Bool

/-- The secret of a new endpoint: the given one, or a new one when that is blank. -/
def secretOrNew (secret : String) : Script String :=
  if trimSpace secret = "" then generateWebhookSecret else pure secret

/-- The answer is the endpoint and its secret. -/
def createEndpoint (h : Host) (input : CreateWebhookEndpointInput) : Script (WebhookEndpoint × String) := do
  let name := trimSpace input.name
  let url := trimSpace input.url
  if !validEndpointName name then fail .invalidInput
  else if !validateURL h url then fail .invalidInput
  else
    match normalizeWebhookEventTypes input.eventTypes with
    | none => fail .invalidInput
    | some eventTypes =>
      let secret ← secretOrNew input.secret
      let ciphertext ← encryptSecret secret
      let now ← now
      let id ← newUUID
      let endpoint : WebhookEndpoint := {
        id := id
        orgID := input.orgID
        name := name
        url := url
        secretHash := hashWebhookSecret h secret
        secretCiphertext := ciphertext
        eventTypes := eventTypes
        isActive := input.isActive
        deletedAt := none
        createdAt := now
        updatedAt := now }
      hook (.createWebhookEndpoint endpoint)
      pure (endpoint, secret)

def listEndpoints (orgID : UUID) : Script (List WebhookEndpoint) := hook (.listWebhookEndpoints orgID)

def getEndpoint (orgID id : UUID) : Script WebhookEndpoint := hook (.getWebhookEndpoint orgID id)

/-- A field that is not given is not changed. -/
structure UpdateWebhookEndpointInput where
  name : Option String
  url : Option String
  secret : Option String
  eventTypes : Option (List WebhookEventType)
  isActive : Option Bool

/-- The name and the URL of an update on the endpoint; `none` when one is not valid. -/
def renameEndpoint (h : Host) (input : UpdateWebhookEndpointInput) (endpoint : WebhookEndpoint) :
    Option WebhookEndpoint := do
  let endpoint ← match input.name with
    | none => some endpoint
    | some name =>
      if validEndpointName (trimSpace name) then some { endpoint with name := trimSpace name } else none
  match input.url with
  | none => some endpoint
  | some url => if validateURL h (trimSpace url) then some { endpoint with url := trimSpace url } else none

/-- The secret of an update on the endpoint. -/
def resecretEndpoint (h : Host) (input : UpdateWebhookEndpointInput) (endpoint : WebhookEndpoint) :
    Script WebhookEndpoint :=
  match input.secret with
  | none => pure endpoint
  | some secret =>
    if trimSpace secret = "" then fail .invalidInput
    else do
      let ciphertext ← encryptSecret secret
      pure { endpoint with secretHash := hashWebhookSecret h secret, secretCiphertext := ciphertext }

/-- The event types and the active flag of an update on the endpoint. -/
def resubscribeEndpoint (input : UpdateWebhookEndpointInput) (endpoint : WebhookEndpoint) : Option WebhookEndpoint :=
  let endpoint := match input.isActive with
    | none => endpoint
    | some isActive => { endpoint with isActive := isActive }
  match input.eventTypes with
  | none => some endpoint
  | some values => (normalizeWebhookEventTypes values).map fun eventTypes => { endpoint with eventTypes := eventTypes }

/-- The endpoint is read, changed and written back as a whole. -/
def updateEndpoint (h : Host) (orgID id : UUID) (input : UpdateWebhookEndpointInput) : Script WebhookEndpoint := do
  if input.name.isNone ∧ input.url.isNone ∧ input.secret.isNone ∧ input.eventTypes.isNone ∧ input.isActive.isNone then
    fail .invalidInput
  else
    let endpoint ← hook (.getWebhookEndpoint orgID id)
    match renameEndpoint h input endpoint with
    | none => fail .invalidInput
    | some endpoint =>
      let endpoint ← resecretEndpoint h input endpoint
      match resubscribeEndpoint input endpoint with
      | none => fail .invalidInput
      | some endpoint =>
        let now ← now
        let endpoint := { endpoint with updatedAt := now }
        hook (.updateWebhookEndpoint endpoint)
        pure endpoint

def deleteEndpoint (orgID id : UUID) : Script Unit := do
  let now ← now
  hook (.softDeleteWebhookEndpoint orgID id now)

/-- The answer is the new secret. -/
def rotateSecret (h : Host) (orgID id : UUID) : Script String := do
  let endpoint ← hook (.getWebhookEndpoint orgID id)
  let secret ← generateWebhookSecret
  let ciphertext ← encryptSecret secret
  let now ← now
  hook (.updateWebhookEndpoint { endpoint with
    secretHash := hashWebhookSecret h secret
    secretCiphertext := ciphertext
    updatedAt := now })
  pure secret

end Windylane
