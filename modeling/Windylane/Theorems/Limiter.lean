import Mathlib.Tactic.Linarith
import Windylane.Store.Limiter

/-! How many calls a token bucket grants. A call refills the bucket for the time since the call before it, and a call whose
    clock is behind sets the time back, so the clock's moves forward are what counts. -/

namespace Windylane.TokenBucketLimiter

/-- How far the times move forward, from each to the next. -/
def forward : Rat → List Rat → Rat
  | _, [] => 0
  | previous, now :: rest => max 0 (now - previous) + forward now rest

/-- The largest of the times. -/
def latest (first : Rat) (rest : List Rat) : Rat := rest.foldl max first

/-- The smallest of them. -/
def earliest (first : Rat) (rest : List Rat) : Rat := rest.foldl min first

variable {l : TokenBucketLimiter}

/-- What the bucket holds when a call has refilled it. -/
def refilled (l : TokenBucketLimiter) (now : Rat) (bucket : Option Bucket) : Rat :=
  min (l.burst : Rat)
    ((bucket.getD ⟨l.burst, now⟩).tokens + max 0 (now - (bucket.getD ⟨l.burst, now⟩).ts) * (l.ratePerSec : Rat))

theorem allow_eq (now : Rat) (bucket : Option Bucket) : l.allow now bucket =
    if 1 ≤ l.refilled now bucket then (true, ⟨l.refilled now bucket - 1, now⟩) else (false, ⟨l.refilled now bucket, now⟩) := rfl

/-- A call spends what it grants. -/
theorem allow_spends (now : Rat) (bucket : Option Bucket) :
    ((l.allow now bucket).1.toNat : Rat) + max 0 (l.allow now bucket).2.tokens = max 0 (l.refilled now bucket) := by
  rw [allow_eq]
  split
  · rename_i full
    change ((1 : Nat) : Rat) + max 0 (l.refilled now bucket - 1) = _
    rw [max_eq_right (by linarith), max_eq_right (by linarith)]
    simp
  · simp

theorem allow_ts (now : Rat) (bucket : Option Bucket) : (l.allow now bucket).2.ts = now := by
  rw [allow_eq]
  split <;> rfl

/-- What is granted after a call is paid by the tokens it left and by what the clock moves forward. -/
theorem granted_le (rate : (0 : Rat) ≤ l.ratePerSec) (times : List Rat) (b : Bucket) :
    (l.granted times (some b) : Rat) ≤ max 0 b.tokens + l.ratePerSec * forward b.ts times := by
  induction times generalizing b with
  | nil => simp [granted, forward]
  | cons now rest ih =>
    have later := ih (l.allow now (some b)).2
    rw [allow_ts] at later
    have refill : 0 ≤ l.ratePerSec * max 0 (now - b.ts) := mul_nonneg rate (le_max_left _ _)
    have spent : ((l.allow now (some b)).1.toNat : Rat) + max 0 (l.allow now (some b)).2.tokens ≤
        max 0 b.tokens + l.ratePerSec * max 0 (now - b.ts) := by
      rw [allow_spends]
      have held : 0 ≤ max 0 b.tokens := le_max_left _ _
      have more : b.tokens ≤ max 0 b.tokens := le_max_right _ _
      refine max_le (by linarith) ((min_le_right _ _).trans ?_)
      rw [mul_comm]
      exact add_le_add more le_rfl
    rw [granted, forward, Nat.cast_add, mul_add]
    linarith

/-- However the clocks of the hosts move, no more is granted than the burst and what the times move forward. -/
theorem granted_le_forward (rate : (0 : Rat) ≤ l.ratePerSec) (burst : (0 : Rat) ≤ l.burst) (first : Rat) (rest : List Rat)
    (bucket : Option Bucket) : (l.granted (first :: rest) bucket : Rat) ≤ l.burst + l.ratePerSec * forward first rest := by
  have spent : ((l.allow first bucket).1.toNat : Rat) + max 0 (l.allow first bucket).2.tokens ≤ l.burst := by
    rw [allow_spends]
    exact max_le burst (min_le_left _ _)
  have later := granted_le rate rest (l.allow first bucket).2
  rw [allow_ts] at later
  rw [granted, Nat.cast_add]
  linarith

theorem earliest_of_sorted {first : Rat} {rest : List Rat} (sorted : ∀ t ∈ rest, first ≤ t) : earliest first rest = first := by
  induction rest with
  | nil => rfl
  | cons now rest ih =>
    rw [earliest, List.foldl_cons, min_eq_left (sorted now List.mem_cons_self)]
    exact ih fun t ht => sorted t (List.mem_cons_of_mem _ ht)

/-- Clocks that never move back meet the condition. -/
theorem forward_of_sorted {first : Rat} {rest : List Rat} (sorted : (first :: rest).Pairwise (· ≤ ·)) :
    forward first rest = latest first rest - earliest first rest := by
  rw [earliest_of_sorted (List.pairwise_cons.1 sorted).1]
  induction rest generalizing first with
  | nil => simp [forward, latest]
  | cons now rest ih =>
    obtain ⟨after, sorted⟩ := List.pairwise_cons.1 sorted
    have later := after now List.mem_cons_self
    rw [forward, ih sorted, latest, latest, List.foldl_cons, max_eq_right later, max_eq_right (by linarith)]
    linarith

/-- When the times move forward no further than they are apart, no more is granted than the burst and the rate allow in the
    time between the smallest and the largest. -/
theorem granted_le_span (rate : 0 < l.ratePerSec) (burst : 0 < l.burst) (first : Rat) (rest : List Rat)
    (steady : forward first rest ≤ latest first rest - earliest first rest) (bucket : Option Bucket) :
    (l.granted (first :: rest) bucket : Rat) ≤ l.burst + l.ratePerSec * (latest first rest - earliest first rest) := by
  have rate : (0 : Rat) ≤ l.ratePerSec := by exact_mod_cast rate.le
  have burst : (0 : Rat) ≤ l.burst := by exact_mod_cast burst.le
  exact (granted_le_forward rate burst first rest bucket).trans (by gcongr)

theorem granted_le_span_drift : forward 0 [1, 5, 4] ≤ latest 0 [1, 5, 4] - earliest 0 [1, 5, 4] ∧
    ((⟨2, 3⟩ : TokenBucketLimiter).granted [0, 1, 5, 4] none : Rat) ≤
      (3 : Int) + (2 : Int) * (latest 0 [1, 5, 4] - earliest 0 [1, 5, 4]) :=
  ⟨by decide +kernel,
    granted_le_span (l := ⟨2, 3⟩) (by decide) (by decide) 0 [1, 5, 4] (by decide +kernel) none⟩

/-- Two hosts whose clocks are a second apart, and take turns: a rate of 1 and a burst of 1 grant three calls within one
    second of supplied times. -/
theorem skewed_hosts_exceed : (1 : Rat) + 1 * (latest 0 [1, 0, 1] - earliest 0 [1, 0, 1]) <
    ((⟨1, 1⟩ : TokenBucketLimiter).granted [0, 1, 0, 1] none : Nat) := by
  decide +kernel

end Windylane.TokenBucketLimiter
