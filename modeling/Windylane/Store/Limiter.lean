import Mathlib.Algebra.Order.Field.Rat

/-! The token bucket that limits the calls on one key, after `internal/broker/redis/rate_limiter.go`. Redis runs the script
    as one step, so the calls of all hosts on a key come one after the other, each with the clock of its host. -/

namespace Windylane

/-- The hash that Redis keeps for a key. -/
structure Bucket where
  tokens : Rat
  ts : Rat
deriving DecidableEq

structure TokenBucketLimiter where
  ratePerSec : Int
  burst : Int

/-- Whether the call is allowed, and the hash that is written. A key without a hash starts full. -/
def tokenBucketScript (rate burst now : Rat) (bucket : Option Bucket) : Bool × Bucket :=
  let ⟨tokens, ts⟩ := bucket.getD ⟨burst, now⟩
  let elapsed := max 0 (now - ts)
  let tokens := min burst (tokens + elapsed * rate)
  if 1 ≤ tokens then (true, ⟨tokens - 1, now⟩) else (false, ⟨tokens, now⟩)

namespace TokenBucketLimiter

/-- `Allow` at the time `now` of the host. -/
def allow (l : TokenBucketLimiter) (now : Rat) (bucket : Option Bucket) : Bool × Bucket :=
  tokenBucketScript l.ratePerSec l.burst now bucket

/-- How many of the calls with these times are allowed. -/
def granted (l : TokenBucketLimiter) : List Rat → Option Bucket → Nat
  | [], _ => 0
  | now :: rest, bucket => (l.allow now bucket).1.toNat + l.granted rest (some (l.allow now bucket).2)

end TokenBucketLimiter

end Windylane
