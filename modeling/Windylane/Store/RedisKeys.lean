import Windylane.Domain

/-! The names of the Redis keys: those of the queues, after `internal/broker/redis/redis_broker.go`, and those of the rate
    limits, after `rate_limiter.go` beside it, with the scopes that `internal/worker/pool.go` and `internal/api/middleware.go`
    give to the limiter. -/

namespace Windylane

/-- A Go string, which holds any bytes. -/
abbrev GoString := List UInt8

def goString (s : String) : GoString := s.toByteArray.data.toList

def queueKey (orgID : UUID) (queue suffix : GoString) : GoString :=
  goString "queueflow:v1:org:" ++ goString orgID.text ++ goString ":queue:" ++ queue ++ goString ":" ++ suffix

def pendingKey (orgID : UUID) (queue : GoString) : GoString := queueKey orgID queue (goString "pending")

def processingKey (orgID : UUID) (queue : GoString) : GoString := queueKey orgID queue (goString "processing")

def delayedKey (orgID : UUID) (queue : GoString) : GoString := queueKey orgID queue (goString "delayed")

def priorityKey (orgID : UUID) (queue : GoString) : GoString := queueKey orgID queue (goString "priorities")

def sequenceKey (orgID : UUID) (queue : GoString) : GoString := queueKey orgID queue (goString "sequence")

def dlqKey (orgID : UUID) (queue : GoString) : GoString := queueKey orgID queue (goString "dlq")

def rateLimitKey (scope : GoString) : GoString := goString "queueflow:v1:" ++ scope ++ goString ":ratelimit"

/-- The scope that `Pool.Run` waits on. -/
def poolScope (orgID : UUID) (queue : GoString) : GoString :=
  goString "org:" ++ goString orgID.text ++ goString ":queue:" ++ queue

/-- The scope of `RateLimitMiddleware`. -/
def apiScope (orgID : UUID) : GoString := goString "org:" ++ goString orgID.text ++ goString ":api"

/-- What is kept under a key. -/
inductive KeyKind where
  | pending | processing | delayed | priorities | sequence | dlq | queueRateLimit | apiRateLimit
deriving DecidableEq

/-- The key of a kind; the limit of the API is not of a queue. -/
def redisKey (kind : KeyKind) (orgID : UUID) (queue : GoString) : GoString :=
  match kind with
  | .pending => pendingKey orgID queue
  | .processing => processingKey orgID queue
  | .delayed => delayedKey orgID queue
  | .priorities => priorityKey orgID queue
  | .sequence => sequenceKey orgID queue
  | .dlq => dlqKey orgID queue
  | .queueRateLimit => rateLimitKey (poolScope orgID queue)
  | .apiRateLimit => rateLimitKey (apiScope orgID)

end Windylane
