import Windylane.Service.Webhooks
import Mathlib.Algebra.Order.Ring.Int
import Mathlib.Tactic.Linarith

/-! How long a delivery waits for its next attempt. The worker computes it in 64 bits; `backoffLoop` is the same loop over
    all integers. -/

namespace Windylane

/-- `WebhookDeliveryWorker`, with what its `backoff` reads. -/
structure WebhookDeliveryWorker where
  initialBackoff : Int64
  maxBackoff : Int64

namespace WebhookDeliveryWorker

/-- The loop of `backoff`, entered `rounds` times at most, with the values that it doubles. -/
def backoffLoop (worker : WebhookDeliveryWorker) : Nat → Int64 → List Int64 → Int64 × List Int64
  | 0, backoff, doubled => (if worker.maxBackoff < backoff then worker.maxBackoff else backoff, doubled)
  | rounds + 1, backoff, doubled =>
    if backoff < worker.maxBackoff then
      if worker.maxBackoff / 2 < backoff then (worker.maxBackoff, doubled)
      else backoffLoop worker rounds (backoff * 2) (doubled ++ [backoff])
    else (if worker.maxBackoff < backoff then worker.maxBackoff else backoff, doubled)

def backoff (worker : WebhookDeliveryWorker) (attempt : Int64) : Int64 :=
  (worker.backoffLoop (attempt.toInt - 1).toNat worker.initialBackoff []).1

/-- What `backoff` doubles on its way. -/
def doubled (worker : WebhookDeliveryWorker) (attempt : Int64) : List Int64 :=
  (worker.backoffLoop (attempt.toInt - 1).toNat worker.initialBackoff []).2

end WebhookDeliveryWorker

/-! ### Over all integers -/

theorem backoffLoop_zero (limit value : Int) : backoffLoop limit 0 value = if limit < value then limit else value := rfl

theorem backoffLoop_succ (limit value : Int) (rounds : Nat) : backoffLoop limit (rounds + 1) value =
    if limit ≤ value then if limit < value then limit else value
    else if limit / 2 < value then limit
    else backoffLoop limit rounds (value * 2) := rfl

/-- The loop doubles as often as it is entered, up to the limit. -/
theorem backoffLoop_eq_min {limit : Int} (rounds : Nat) {value : Int} (positive : 0 < value) :
    backoffLoop limit rounds value = min limit (value * 2 ^ rounds) := by
  induction rounds generalizing value with
  | zero =>
    rw [backoffLoop_zero, pow_zero]
    change @Eq Int _ _
    split <;> omega
  | succ rounds ih =>
    -- what is doubled once more is twice as much at least
    have grows : value * 2 ≤ value * 2 ^ (rounds + 1) := by
      have : (1 : Int) ≤ 2 ^ rounds := one_le_pow₀ (by omega)
      rw [pow_succ]
      nlinarith
    rw [backoffLoop_succ]
    change @Eq Int _ _
    split
    · split <;> omega
    split
    · omega
    · rw [ih (by omega), pow_succ', mul_assoc]

/-! ### In 64 bits -/

namespace WebhookDeliveryWorker
variable {worker : WebhookDeliveryWorker}

theorem toInt_half (limit : Int64) (positive : 0 < limit) : (limit / 2).toInt = limit.toInt / 2 := by
  have positive : 0 < limit.toInt := Int64.lt_iff_toInt_lt.1 positive
  rw [Int64.toInt_div_of_ne_right _ _ (by decide), show (2 : Int64).toInt = 2 by decide, Int.tdiv_eq_ediv_of_nonneg (by omega)]

/-- A value up to half of the limit is doubled without overflow. -/
theorem toInt_double {limit value : Int64} (positive : 0 < value) (small : value.toInt ≤ limit.toInt / 2) :
    (value * 2).toInt = value.toInt * 2 := by
  have positive : 0 < value.toInt := Int64.lt_iff_toInt_lt.1 positive
  have bound := Int64.toInt_lt limit
  rw [Int64.toInt_mul, show (2 : Int64).toInt = 2 by decide]
  exact Int.bmod_eq_of_le (by omega) (by omega)

/-- The loop in 64 bits does what the loop over all integers does, and nothing that it doubles overflows. -/
theorem backoffLoop_spec (limit : 0 < worker.maxBackoff) (rounds : Nat) {value : Int64} (positive : 0 < value)
    {seen : List Int64} (sound : ∀ b ∈ seen, (b * 2).toInt = b.toInt * 2) :
    (worker.backoffLoop rounds value seen).1.toInt = Windylane.backoffLoop worker.maxBackoff.toInt rounds value.toInt ∧
      ∀ b ∈ (worker.backoffLoop rounds value seen).2, (b * 2).toInt = b.toInt * 2 := by
  have capped : ∀ value : Int64, (if worker.maxBackoff < value then worker.maxBackoff else value).toInt =
      if worker.maxBackoff.toInt < value.toInt then worker.maxBackoff.toInt else value.toInt := by
    intro value
    simp only [Int64.lt_iff_toInt_lt]
    split <;> rfl
  induction rounds generalizing value seen with
  | zero => exact ⟨capped value, sound⟩
  | succ rounds ih =>
    rw [backoffLoop_succ, WebhookDeliveryWorker.backoffLoop]
    by_cases below : value < worker.maxBackoff
    · have below' := Int64.lt_iff_toInt_lt.1 below
      rw [if_pos below, if_neg (show ¬ worker.maxBackoff.toInt ≤ value.toInt by omega)]
      by_cases large : worker.maxBackoff / 2 < value
      · have large' := Int64.lt_iff_toInt_lt.1 large
        rw [toInt_half _ limit] at large'
        rw [if_pos large, if_pos large']
        exact ⟨rfl, sound⟩
      · have small : ¬ worker.maxBackoff.toInt / 2 < value.toInt := by
          rw [← toInt_half _ limit]
          exact fun large' => large (Int64.lt_iff_toInt_lt.2 large')
        have doubles : (value * 2).toInt = value.toInt * 2 := toInt_double positive (Int.not_lt.1 small)
        have positive' : 0 < value * 2 := by
          have := Int64.lt_iff_toInt_lt.1 positive
          refine Int64.lt_iff_toInt_lt.2 ?_
          rw [doubles]
          exact Int.mul_pos this (by omega)
        rw [if_neg large, if_neg small, ← doubles]
        refine ih positive' fun b hb => ?_
        rcases List.mem_append.1 hb with hb | hb
        · exact sound b hb
        · rw [List.mem_singleton.1 hb]
          exact doubles
    · have above : worker.maxBackoff.toInt ≤ value.toInt := by
        by_contra short
        exact below (Int64.lt_iff_toInt_lt.2 (by omega))
      rw [if_neg below, if_pos above]
      exact ⟨capped value, sound⟩

/-- The waiting time is the initial one, doubled for each attempt after the first, up to the limit. -/
theorem backoff_eq_min (initial : 0 < worker.initialBackoff) (limit : 0 < worker.maxBackoff) (attempt : Int64) :
    (worker.backoff attempt).toInt =
      min worker.maxBackoff.toInt (worker.initialBackoff.toInt * 2 ^ (attempt.toInt - 1).toNat) := by
  unfold backoff
  rw [(backoffLoop_spec limit _ initial (by simp)).1, backoffLoop_eq_min _ (Int64.lt_iff_toInt_lt.1 initial)]

/-- What the delivery worker of the model waits. The closed form does not depend on the unit of time. -/
theorem backoff_of_host {h : Host} (initial : h.webhookInitialBackoff = worker.initialBackoff.toInt)
    (limit : h.webhookMaxBackoff = worker.maxBackoff.toInt) (starts : 0 < worker.initialBackoff) (ends : 0 < worker.maxBackoff)
    (attempt : Int64) : h.backoff attempt.toInt = (worker.backoff attempt).toInt := by
  have starts' : ¬ worker.initialBackoff.toInt ≤ 0 := Int.not_le.2 (Int64.lt_iff_toInt_lt.1 starts)
  have ends' : ¬ worker.maxBackoff.toInt ≤ 0 := Int.not_le.2 (Int64.lt_iff_toInt_lt.1 ends)
  unfold Host.backoff backoff
  rw [initial, limit, if_neg starts', if_neg ends']
  exact (backoffLoop_spec ends _ starts (by simp)).1.symm

/-- `backoff` is exact in 64 bits: it doubles without overflow, never exceeds the limit, and grows with the attempts. -/
theorem backoff_closed_form (worker : WebhookDeliveryWorker) (initial : 0 < worker.initialBackoff)
    (limit : 0 < worker.maxBackoff) (attempt : Int64) (first : 1 ≤ attempt) :
    (worker.backoff attempt).toInt =
        min worker.maxBackoff.toInt (worker.initialBackoff.toInt * 2 ^ (attempt.toInt - 1).toNat) ∧
      (∀ b ∈ worker.doubled attempt, (b * 2).toInt = b.toInt * 2) ∧ worker.backoff attempt ≤ worker.maxBackoff ∧
      ∀ later, attempt ≤ later → worker.backoff attempt ≤ worker.backoff later := by
  have value := backoff_eq_min initial limit
  refine ⟨value attempt, (backoffLoop_spec limit _ initial (by simp)).2, ?_, fun later after => ?_⟩
  · rw [Int64.le_iff_toInt_le, value]
    exact Int.min_le_left _ _
  · have first := Int64.le_iff_toInt_le.1 first
    have after := Int64.le_iff_toInt_le.1 after
    have positive := Int64.lt_iff_toInt_lt.1 initial
    have grows : (2 : Int) ^ (attempt.toInt - 1).toNat ≤ 2 ^ (later.toInt - 1).toNat :=
      pow_le_pow_right₀ (by omega) (by omega)
    have scaled : worker.initialBackoff.toInt * 2 ^ (attempt.toInt - 1).toNat ≤
        worker.initialBackoff.toInt * 2 ^ (later.toInt - 1).toNat :=
      Int.mul_le_mul_of_nonneg_left grows (by
        have zero : (0 : Int64).toInt = 0 := rfl
        omega)
    rw [Int64.le_iff_toInt_le, value, value]
    omega

/-- A limit just below 2^63, which three doubled 61 times does not reach. -/
theorem backoff_closed_form_limit : (⟨3, 9223372036854775807⟩ : WebhookDeliveryWorker).backoff 1000 ≤ 9223372036854775807 ∧
    ((⟨3, 9223372036854775807⟩ : WebhookDeliveryWorker).backoff 62).toInt = 3 * 2 ^ 61 := by
  have closed := backoff_closed_form ⟨3, 9223372036854775807⟩ (by decide) (by decide)
  exact ⟨(closed 1000 (by decide)).2.2.1, (closed 62 (by decide)).1.trans (by decide)⟩

end WebhookDeliveryWorker
end Windylane
