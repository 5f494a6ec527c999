import Mathlib.Data.List.Induction
import Windylane.Calls

/-! One queue of the broker as a priority queue. A sequence number is drawn whenever a message is put into the pending
    set; the record of these scorings says which message is to be dispatched next, and the one integer by which Redis
    orders the set says the same. -/

namespace Windylane.Broker

/-! ### Scores -/

/-- The priority with which a message was put into the pending set, and the sequence number that was drawn. -/
structure Scoring where
  priority : Int
  number : Nat
deriving DecidableEq

def Scoring.score (x : Scoring) : Int := (9 - x.priority) * priorityBucketSize + x.number

/-- The higher priority, and the earlier scoring among equals. -/
def Scoring.Ahead (x y : Scoring) : Prop := y.priority < x.priority ∨ x.priority = y.priority ∧ x.number < y.number

/-- The bucket of a priority has room for the sequence numbers. -/
theorem ahead_of_score_le {x y : Scoring} (hx : (x.number : Int) < priorityBucketSize)
    (hy : (y.number : Int) < priorityBucketSize) (ne : x.number ≠ y.number) (le : x.score ≤ y.score) : x.Ahead y := by
  unfold Scoring.score at le
  unfold Scoring.Ahead
  unfold priorityBucketSize at *
  omega

/-- The pending message that Redis answers has the least score. -/
theorem dequeue_first {q : Queue} {m : UUID × Int} {rest : List (UUID × Int)}
    (first : Table.firstBy before 1 q.pending = m :: rest) : m ∈ q.pending ∧ ∀ e ∈ q.pending, m.2 ≤ e.2 := by
  have found := Table.firstBy_one (R := fun a b : UUID × Int => a.2 ≤ b.2) ?_ ?_ (fun _ _ _ => Int.le_trans) first
  · refine ⟨found.1, fun e he => ?_⟩
    rcases found.2 e he with rfl | le
    · exact Int.le_refl _
    · exact le
  · intro a b h
    simp only [before, Bool.or_eq_true, Bool.and_eq_true, decide_eq_true_eq] at h
    omega
  · intro a b h
    simp only [before, Bool.or_eq_false_iff, decide_eq_false_iff_not] at h
    omega

/-- A message that names no task is moved as well. -/
theorem runQueue_dequeue (env : Env) (orgID : UUID) (queue : String) (q : Queue) :
    (BrokerOp.runQueue env (.dequeue orgID queue) q).2 = (dequeue q).2 := by
  simp only [BrokerOp.runQueue]
  split
  · rename_i he
    rw [he]
  · rename_i he
    rw [he]
    split <;> rfl

/-! ### Members -/

/-- The members of a sorted set. -/
abbrev members (set : List (UUID × Int)) : List UUID := set.map (·.1)

theorem mem_members_zrem {m x : UUID} {set : List (UUID × Int)} : m ∈ members (zrem x set) ↔ m ∈ members set ∧ m ≠ x := by
  simp only [zrem, List.mem_map, List.mem_filter, decide_eq_true_eq]
  constructor
  · rintro ⟨e, ⟨he, ne⟩, rfl⟩
    exact ⟨⟨e, he, rfl⟩, ne⟩
  · rintro ⟨⟨e, he, rfl⟩, ne⟩
    exact ⟨e, ⟨he, ne⟩, rfl⟩

theorem mem_members_zadd {m x : UUID} {score : Int} {set : List (UUID × Int)} :
    m ∈ members (zadd x score set) ↔ m = x ∨ m ∈ members set := by
  have moved : members (zadd x score set) = members (zrem x set) ++ [x] := List.map_append
  rw [moved, List.mem_append, mem_members_zrem, List.mem_singleton]
  by_cases same : m = x <;> simp [same]

/-- The message is in one of the sets or in the dead-letter list. -/
def Present (q : Queue) (m : UUID) : Prop :=
  m ∈ members q.pending ∨ m ∈ members q.processing ∨ m ∈ members q.delayed ∨ m ∈ q.dlq

/-! ### The record of scorings -/

/-- The delayed messages that a promotion moves. -/
def due (now : Time) (q : Queue) : List UUID :=
  (Table.firstBy before 100 (q.delayed.filter fun m => m.2 ≤ unixMilli now)).map (·.1)

/-- The messages that a call puts into the pending set, with their priorities, in order. -/
def scorings (env : Env) : BrokerOp → Queue → List (UUID × Int)
  | .enqueue _ _ id priority, _ => [(id, normalizePriority priority)]
  | .nack _ _ id delay, q => if delay ≤ 0 then [(id, priorityOf q id)] else []
  | .promoteDueDelayed _ _, q => (due env.now q).map fun m => (m, priorityOf q m)
  | _, _ => []

/-- A queue, with all scorings up to now, the latest first. -/
structure Line where
  queue : Queue
  log : List (UUID × Int)

/-- One call on the queue. -/
def Line.step (s : Line) (call : Env × BrokerOp) : Line where
  queue := (call.2.runQueue call.1 s.queue).2
  log := (scorings call.1 call.2 s.queue).reverse ++ s.log

/-- The queue after a sequence of calls. -/
def Line.run (calls : List (Env × BrokerOp)) : Line := calls.foldl Line.step ⟨.empty, []⟩

theorem Line.run_concat (calls : List (Env × BrokerOp)) (call : Env × BrokerOp) :
    Line.run (calls ++ [call]) = (Line.run calls).step call := by
  simp [Line.run]

/-- The last scoring of a message. -/
def lastScoring (m : UUID) : List (UUID × Int) → Option Scoring
  | [] => none
  | (member, priority) :: rest => if member = m then some ⟨priority, rest.length + 1⟩ else lastScoring m rest

theorem lastScoring_le {m : UUID} {x : Scoring} {log : List (UUID × Int)} (h : lastScoring m log = some x) :
    x.number ≤ log.length := by
  induction log with
  | nil => cases h
  | cons e rest ih =>
    unfold lastScoring at h
    split at h
    · cases h
      exact Nat.le_refl _
    · exact Nat.le_succ_of_le (ih h)

/-- No two messages were scored at once. -/
theorem lastScoring_ne {m m' : UUID} {x x' : Scoring} {log : List (UUID × Int)} (h : lastScoring m log = some x)
    (h' : lastScoring m' log = some x') (ne : m ≠ m') : x.number ≠ x'.number := by
  induction log with
  | nil => cases h
  | cons e rest ih =>
    unfold lastScoring at h h'
    split at h
    · rename_i here
      split at h'
      · rename_i here'
        exact absurd (here.symm.trans here') ne
      · cases h
        have := lastScoring_le h'
        exact Nat.ne_of_gt (Nat.lt_succ_of_le this)
    · split at h'
      · cases h'
        have := lastScoring_le h
        exact Nat.ne_of_lt (Nat.lt_succ_of_le this)
      · exact ih h h'

/-! ### The invariant -/

/-- The scores in the pending set are those of the last scorings. -/
structure Line.Scored (s : Line) : Prop where
  drawn : s.queue.sequence = s.log.length
  pending : ∀ e ∈ s.queue.pending, ∃ x, lastScoring e.1 s.log = some x ∧ e.2 = x.score

/-- What only takes messages out of the pending set keeps the scores. -/
theorem Line.Scored.sub {s : Line} (h : s.Scored) {q : Queue} (sequence : q.sequence = s.queue.sequence)
    (sub : ∀ e ∈ q.pending, e ∈ s.queue.pending) : Line.Scored ⟨q, s.log⟩ where
  drawn := sequence.trans h.drawn
  pending := fun e he => h.pending e (sub e he)

theorem Line.Scored.push {s : Line} (h : s.Scored) (m : UUID) (priority : Int) :
    Line.Scored ⟨push s.queue m priority, (m, priority) :: s.log⟩ where
  drawn := by simp [Broker.push, h.drawn]
  pending := by
    intro e he
    rcases List.mem_append.1 he with old | new
    · obtain ⟨old, ne⟩ := List.mem_filter.1 old
      obtain ⟨x, last, score⟩ := h.pending e old
      refine ⟨x, ?_, score⟩
      rw [lastScoring, if_neg (Ne.symm (of_decide_eq_true ne))]
      exact last
    · cases List.mem_singleton.1 new
      refine ⟨⟨priority, s.log.length + 1⟩, if_pos rfl, ?_⟩
      show (9 - priority) * priorityBucketSize + (s.queue.sequence + 1) = _
      rw [h.drawn]
      rfl

theorem Line.Scored.promote {s : Line} (h : s.Scored) (ms : List UUID) :
    Line.Scored ⟨ms.foldl Broker.promote s.queue, (ms.map fun m => (m, priorityOf s.queue m)).reverse ++ s.log⟩ := by
  induction ms generalizing s with
  | nil => exact h
  | cons m rest ih =>
    have first : Line.Scored ⟨Broker.promote s.queue m, (m, priorityOf s.queue m) :: s.log⟩ :=
      (h.sub (q := { s.queue with delayed := zrem m s.queue.delayed }) rfl fun _ he => he).push m _
    have same : priorityOf (Broker.promote s.queue m) = priorityOf s.queue := rfl
    simpa [same] using ih first

theorem Line.Scored.step {s : Line} (h : s.Scored) (call : Env × BrokerOp) : (s.step call).Scored := by
  obtain ⟨env, o⟩ := call
  have filtered : ∀ {m : UUID} {e : UUID × Int}, e ∈ zrem m s.queue.pending → e ∈ s.queue.pending :=
    fun he => (List.mem_filter.1 he).1
  cases o with
  | enqueue orgID queue id priority =>
    exact (h.sub (q := { s.queue with priorities := zadd id (normalizePriority priority) s.queue.priorities }) rfl fun _ he => he).push id _
  | dequeue orgID queue =>
    show Line.Scored ⟨(BrokerOp.runQueue env (.dequeue orgID queue) s.queue).2, s.log⟩
    rw [runQueue_dequeue]
    unfold dequeue
    split
    · exact h
    · exact h.sub rfl fun _ he => filtered he
  | ack orgID queue id => exact h.sub rfl fun _ he => he
  | nack orgID queue id delay =>
    show Line.Scored ⟨nack id delay env.now s.queue, (scorings env (.nack orgID queue id delay) s.queue).reverse ++ s.log⟩
    by_cases immediate : delay ≤ 0
    · simp only [nack, scorings, if_pos immediate]
      exact (h.sub (q := { s.queue with processing := zrem id s.queue.processing }) rfl fun _ he => he).push id _
    · simp only [nack, scorings, if_neg immediate]
      exact h.sub rfl fun _ he => he
  | enqueueDelayed orgID queue id priority delay => exact h.sub rfl fun _ he => he
  | moveToDeadLetter orgID queue id => exact h.sub rfl fun _ he => filtered he
  | promoteDueDelayed orgID queue => exact h.promote (due env.now s.queue)
  | remove orgID queue id => exact h.sub rfl fun _ he => filtered he
  | queueDepth orgID queue => exact h

theorem Line.run_scored (calls : List (Env × BrokerOp)) : (Line.run calls).Scored := by
  induction calls using List.reverseRecOn with
  | nil => exact ⟨rfl, fun _ he => by cases he⟩
  | append_singleton calls call ih =>
    rw [Line.run_concat]
    exact ih.step call

/-! ### Nothing is lost -/

/-- The message was enqueued, and neither acknowledged nor removed since. -/
def kept (m : UUID) (calls : List (Env × BrokerOp)) : Bool :=
  calls.foldl (fun held call =>
    match call.2 with
    | .enqueue _ _ id _ | .enqueueDelayed _ _ id _ _ => held || id = m
    | .ack _ _ id | .remove _ _ id => held && id ≠ m
    | _ => held) false

theorem push_present {q : Queue} {m id : UUID} {priority : Int} (h : m = id ∨ Present q m) :
    Present (push q id priority) m := by
  rcases h with rfl | pending | other
  · exact Or.inl (mem_members_zadd.2 (Or.inl rfl))
  · exact Or.inl (mem_members_zadd.2 (Or.inr pending))
  · exact Or.inr other

theorem promote_present {q : Queue} {m id : UUID} (h : Present q m) : Present (promote q id) m := by
  refine push_present ?_
  by_cases same : m = id
  · exact Or.inl same
  · rcases h with pending | processing | delayed | dead
    · exact Or.inr (Or.inl pending)
    · exact Or.inr (Or.inr (Or.inl processing))
    · exact Or.inr (Or.inr (Or.inr (Or.inl (mem_members_zrem.2 ⟨delayed, same⟩))))
    · exact Or.inr (Or.inr (Or.inr (Or.inr dead)))

theorem dequeue_present {q : Queue} {m : UUID} (h : Present q m) : Present (dequeue q).2 m := by
  unfold dequeue
  split
  · exact h
  · rename_i member score rest _
    by_cases same : m = member
    · exact Or.inr (Or.inl (mem_members_zadd.2 (Or.inl same)))
    · rcases h with pending | processing | other
      · exact Or.inl (mem_members_zrem.2 ⟨pending, same⟩)
      · exact Or.inr (Or.inl (mem_members_zadd.2 (Or.inr processing)))
      · exact Or.inr (Or.inr other)

theorem nack_present {q : Queue} {m id : UUID} {delay : Duration} {now : Time} (h : Present q m) :
    Present (nack id delay now q) m := by
  unfold nack
  by_cases same : m = id
  · split
    · exact push_present (Or.inl same)
    · exact Or.inr (Or.inr (Or.inl (mem_members_zadd.2 (Or.inl same))))
  · have kept : m ∈ members q.processing → m ∈ members (zrem id q.processing) :=
      fun processing => mem_members_zrem.2 ⟨processing, same⟩
    split
    · refine push_present (Or.inr ?_)
      rcases h with pending | processing | other
      · exact Or.inl pending
      · exact Or.inr (Or.inl (kept processing))
      · exact Or.inr (Or.inr other)
    · rcases h with pending | processing | delayed | dead
      · exact Or.inl pending
      · exact Or.inr (Or.inl (kept processing))
      · exact Or.inr (Or.inr (Or.inl (mem_members_zadd.2 (Or.inr delayed))))
      · exact Or.inr (Or.inr (Or.inr dead))

/-- A message stays until it is acknowledged or removed. -/
theorem kept_present (m : UUID) (calls : List (Env × BrokerOp)) (h : kept m calls = true) :
    Present (Line.run calls).queue m := by
  induction calls using List.reverseRecOn with
  | nil => cases h
  | append_singleton calls call ih =>
    obtain ⟨env, o⟩ := call
    rw [Line.run_concat]
    simp only [kept, List.foldl_append, List.foldl_cons, List.foldl_nil] at h
    cases o with
    | enqueue orgID queue id priority =>
      rw [Bool.or_eq_true, decide_eq_true_eq] at h
      rcases h with old | rfl
      · exact push_present (Or.inr (ih old))
      · exact push_present (Or.inl rfl)
    | enqueueDelayed orgID queue id priority delay =>
      rw [Bool.or_eq_true, decide_eq_true_eq] at h
      rcases h with old | rfl
      · rcases ih old with pending | processing | delayed | dead
        · exact Or.inl pending
        · exact Or.inr (Or.inl processing)
        · exact Or.inr (Or.inr (Or.inl (mem_members_zadd.2 (Or.inr delayed))))
        · exact Or.inr (Or.inr (Or.inr dead))
      · exact Or.inr (Or.inr (Or.inl (mem_members_zadd.2 (Or.inl rfl))))
    | dequeue orgID queue =>
      show Present (BrokerOp.runQueue env (.dequeue orgID queue) (Line.run calls).queue).2 m
      rw [runQueue_dequeue]
      exact dequeue_present (ih h)
    | ack orgID queue id =>
      rw [Bool.and_eq_true, decide_eq_true_eq] at h
      rcases ih h.1 with pending | processing | other
      · exact Or.inl pending
      · exact Or.inr (Or.inl (mem_members_zrem.2 ⟨processing, Ne.symm h.2⟩))
      · exact Or.inr (Or.inr other)
    | nack orgID queue id delay => exact nack_present (ih h)
    | moveToDeadLetter orgID queue id =>
      by_cases same : m = id
      · exact Or.inr (Or.inr (Or.inr (same ▸ List.mem_cons_self)))
      · rcases ih h with pending | processing | delayed | dead
        · exact Or.inl (mem_members_zrem.2 ⟨pending, same⟩)
        · exact Or.inr (Or.inl (mem_members_zrem.2 ⟨processing, same⟩))
        · exact Or.inr (Or.inr (Or.inl (mem_members_zrem.2 ⟨delayed, same⟩)))
        · exact Or.inr (Or.inr (Or.inr (List.mem_cons_of_mem _ dead)))
    | promoteDueDelayed orgID queue =>
      have promoted : ∀ (ms : List UUID) (q : Queue), Present q m → Present (ms.foldl promote q) m := by
        intro ms
        induction ms with
        | nil => exact fun _ here => here
        | cons id rest next => exact fun q here => next _ (promote_present here)
      exact promoted (due env.now (Line.run calls).queue) _ (ih h)
    | remove orgID queue id =>
      rw [Bool.and_eq_true, decide_eq_true_eq] at h
      have ne : m ≠ id := Ne.symm h.2
      rcases ih h.1 with pending | processing | delayed | dead
      · exact Or.inl (mem_members_zrem.2 ⟨pending, ne⟩)
      · exact Or.inr (Or.inl (mem_members_zrem.2 ⟨processing, ne⟩))
      · exact Or.inr (Or.inr (Or.inl (mem_members_zrem.2 ⟨delayed, ne⟩)))
      · exact Or.inr (Or.inr (Or.inr (List.mem_filter.2 ⟨dead, decide_eq_true ne⟩)))
    | queueDepth orgID queue => exact ih h

/-! ### The priority queue -/

/-- The message `m` is taken from the pending set of `s` and put into the processing set. -/
structure Dispatched (s : Line) (m : UUID) (q : Queue) : Prop where
  /-- It was scored with the highest priority, and first among those scored with it. -/
  first : m ∈ members s.queue.pending ∧ ∃ x, lastScoring m s.log = some x ∧
    ∀ m' ∈ members s.queue.pending, m' ≠ m → ∃ x', lastScoring m' s.log = some x' ∧ x.Ahead x'
  pending : ∀ m', m' ∈ members q.pending ↔ m' ∈ members s.queue.pending ∧ m' ≠ m
  processing : ∀ m', m' ∈ members q.processing ↔ m' = m ∨ m' ∈ members s.queue.processing
  rest : q.delayed = s.queue.delayed ∧ q.priorities = s.queue.priorities ∧ q.sequence = s.queue.sequence ∧ q.dlq = s.queue.dlq

theorem Line.Scored.dequeue {s : Line} (h : s.Scored) (fewer : s.queue.sequence < priorityBucketSize) {m : UUID} {q : Queue}
    (taken : Broker.dequeue s.queue = (some m, q)) : Dispatched s m q := by
  have room : ∀ {m : UUID} {x : Scoring}, lastScoring m s.log = some x → (x.number : Int) < priorityBucketSize := by
    intro m x last
    have := lastScoring_le last
    rw [h.drawn] at fewer
    omega
  unfold Broker.dequeue at taken
  split at taken
  · cases taken
  · rename_i member score rest found
    cases taken
    obtain ⟨here, least⟩ := dequeue_first found
    obtain ⟨x, last, rfl⟩ := h.pending _ here
    refine ⟨⟨List.mem_map.2 ⟨_, here, rfl⟩, x, last, fun m' hm' ne => ?_⟩, fun m' => mem_members_zrem,
      fun m' => mem_members_zadd, rfl, rfl, rfl, rfl⟩
    obtain ⟨e, he, rfl⟩ := List.mem_map.1 hm'
    obtain ⟨x', last', score⟩ := h.pending e he
    refine ⟨x', last', ahead_of_score_le (room last) (room last') (lastScoring_ne last last' (Ne.symm ne)) ?_⟩
    rw [← score]
    exact least e he

/-- After every sequence of calls on a queue that drew fewer sequence numbers than a bucket holds, a dequeue takes
    the first of the pending messages, or there are none; and no message is lost. -/
theorem broker_priority_queue (calls : List (Env × BrokerOp))
    (fewer : (Line.run calls).queue.sequence < priorityBucketSize) :
    (match dequeue (Line.run calls).queue with
      | (some m, q) => Dispatched (Line.run calls) m q
      | (none, q) => (Line.run calls).queue.pending = [] ∧ q = (Line.run calls).queue) ∧
    ∀ m, kept m calls = true → Present (Line.run calls).queue m := by
  refine ⟨?_, fun m => kept_present m calls⟩
  split
  · rename_i taken
    exact (Line.run_scored calls).dequeue fewer taken
  · rename_i nothing
    unfold dequeue at nothing
    split at nothing
    · rename_i found
      cases nothing
      exact ⟨Table.firstBy_eq_nil (by decide) found, rfl⟩
    · cases nothing

/-- A message of low priority, and one of high priority that is delayed, dequeued, and put back at once. -/
def sampleLine : List (Env × BrokerOp) := [
  (sampleEnv 0 ⟨0⟩, .enqueue ⟨1⟩ "jobs" ⟨5⟩ 3),
  (sampleEnv 0 ⟨0⟩, .enqueueDelayed ⟨1⟩ "jobs" ⟨6⟩ 12 (seconds 1)),
  (sampleEnv (seconds 2) ⟨0⟩, .promoteDueDelayed ⟨1⟩ "jobs"),
  (sampleEnv (seconds 2) ⟨0⟩, .dequeue ⟨1⟩ "jobs"),
  (sampleEnv (seconds 2) ⟨0⟩, .nack ⟨1⟩ "jobs" ⟨6⟩ 0)]

/-- The delayed message has kept its priority and is the next one again. -/
theorem sampleLine_next : (∃ q, Dispatched (Line.run sampleLine) ⟨6⟩ q) ∧ Present (Line.run sampleLine).queue ⟨5⟩ := by
  obtain ⟨next, present⟩ := broker_priority_queue sampleLine (by decide)
  have taken : dequeue (Line.run sampleLine).queue = (some ⟨6⟩, (dequeue (Line.run sampleLine).queue).2) := by decide
  rw [taken] at next
  exact ⟨⟨_, next⟩, present ⟨5⟩ (by decide)⟩

end Windylane.Broker
