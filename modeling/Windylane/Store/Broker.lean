import Windylane.Domain
import Windylane.Lib.Table

/-! The Redis broker, after `internal/broker/redis/redis_broker.go`. The keys of one organisation and queue are
    one `Queue`; a message names its organisation and task, so within a queue it is the task id. Each function
    is one script or one `MULTI` pipeline, hence one atomic step. -/

namespace Windylane.Broker

def priorityBucketSize : Int := 1000000000000

/-- The sorted sets, the priority hash, the sequence and the dead-letter list of one queue. In a sorted set no
    member repeats. -/
structure Queue where
  pending : List (UUID × Int)
  processing : List (UUID × Int)
  delayed : List (UUID × Int)
  priorities : List (UUID × Int)
  sequence : Int
  dlq : List UUID
deriving DecidableEq

def Queue.empty : Queue := ⟨[], [], [], [], 0, []⟩

abbrev Store := UUID × String → Queue

/-- `ZADD`, which moves a member to its new score. -/
def zadd (member : UUID) (score : Int) (set : List (UUID × Int)) : List (UUID × Int) :=
  set.filter (·.1 ≠ member) ++ [(member, score)]

/-- `ZREM`, and `HDEL` of a hash. -/
def zrem (member : UUID) (set : List (UUID × Int)) : List (UUID × Int) := set.filter (·.1 ≠ member)

/-- The order of a sorted set: by score, then by the text of the message, which orders like the task id. -/
def before (a b : UUID × Int) : Bool := a.2 < b.2 || (a.2 = b.2 && (a.1 < b.1 || a.1 = b.1))

/-- `HGET`, or 0. -/
def priorityOf (q : Queue) (member : UUID) : Int := (q.priorities.lookup member).getD 0

def normalizePriority (priority : Int) : Int := if priority < 0 then 0 else if 9 < priority then 9 else priority

/-- `INCR` the sequence and add the member to the pending set, ranked by priority and sequence. -/
def push (q : Queue) (member : UUID) (priority : Int) : Queue :=
  let sequence := q.sequence + 1
  { q with
    sequence := sequence
    pending := zadd member ((9 - priority) * priorityBucketSize + sequence) q.pending }

def unixMilli (t : Time) : Int := t / 1000

def enqueue (member : UUID) (priority : Int) (q : Queue) : Queue :=
  let priority := normalizePriority priority
  push { q with priorities := zadd member priority q.priorities } member priority

/-- The first pending message moves to the processing set; `none` when nothing is pending. -/
def dequeue (q : Queue) : Option UUID × Queue :=
  match Table.firstBy before 1 q.pending with
  | [] => (none, q)
  | (member, score) :: _ =>
    (some member, { q with pending := zrem member q.pending, processing := zadd member score q.processing })

def ack (member : UUID) (q : Queue) : Queue :=
  { q with processing := zrem member q.processing, priorities := zrem member q.priorities }

def nack (member : UUID) (delay : Duration) (now : Time) (q : Queue) : Queue :=
  if delay ≤ 0 then push { q with processing := zrem member q.processing } member (priorityOf q member)
  else
    { q with
      processing := zrem member q.processing
      delayed := zadd member (unixMilli (now + delay)) q.delayed }

def enqueueDelayed (member : UUID) (priority : Int) (delay : Duration) (now : Time) (q : Queue) : Queue :=
  { q with
    priorities := zadd member (normalizePriority priority) q.priorities
    delayed := zadd member (unixMilli (now + delay)) q.delayed }

def moveToDeadLetter (member : UUID) (q : Queue) : Queue :=
  { q with
    processing := zrem member q.processing
    pending := zrem member q.pending
    delayed := zrem member q.delayed
    priorities := zrem member q.priorities
    dlq := member :: q.dlq }

/-- Move one member from the delayed set to the pending set. -/
def promote (q : Queue) (member : UUID) : Queue :=
  push { q with delayed := zrem member q.delayed } member (priorityOf q member)

/-- At most a hundred due members at a time. -/
def promoteDueDelayed (now : Time) (q : Queue) : Nat × Queue :=
  let due := Table.firstBy before 100 (q.delayed.filter fun m => m.2 ≤ unixMilli now)
  (due.length, (due.map (·.1)).foldl promote q)

def remove (member : UUID) (q : Queue) : Queue :=
  { q with
    pending := zrem member q.pending
    processing := zrem member q.processing
    delayed := zrem member q.delayed
    priorities := zrem member q.priorities
    dlq := q.dlq.filter (· ≠ member) }

end Windylane.Broker
