import Mathlib.Logic.Basic

/-! Transition systems given by a partial step function: runs, the states that runs reach, and invariants. -/

namespace Steps

variable {σ α : Type} {next : σ → α → Option σ}

/-- Take the steps of a list. -/
def run (next : σ → α → Option σ) (s : σ) : List α → Option σ
  | [] => some s
  | a :: rest => (next s a).bind fun t => run next t rest

/-- The same with a condition on every step. -/
def runChecked (next : σ → α → Option σ) (ok : σ → α → Bool) (s : σ) : List α → Option σ
  | [] => some s
  | a :: rest => if ok s a then (next s a).bind fun t => runChecked next ok t rest else none

/-- `t` is reached from `s₀` by steps that `allow` permits where they are taken. -/
inductive Reach (next : σ → α → Option σ) (allow : σ → α → Prop) (s₀ : σ) : σ → Prop
  | refl : Reach next allow s₀ s₀
  | next {s t : σ} (a : α) (prior : Reach next allow s₀ s) (allowed : allow s a) (taken : next s a = some t) :
      Reach next allow s₀ t

variable {allow : σ → α → Prop} {s₀ s t : σ}

/-- What holds at the start and is kept by every step holds in every state that is reached. -/
theorem Reach.invariant (reach : Reach next allow s₀ s) (inv : σ → Prop) (init : inv s₀)
    (kept : ∀ s t a, Reach next allow s₀ s → inv s → allow s a → next s a = some t → inv t) : inv s := by
  induction reach with
  | refl => exact init
  | next a prior allowed taken ih => exact kept _ _ a prior ih allowed taken

theorem Reach.trans (first : Reach next allow s₀ s) (second : Reach next allow s t) : Reach next allow s₀ t := by
  induction second with
  | refl => exact first
  | next a _ allowed taken ih => exact .next a ih allowed taken

/-- A run whose steps are checked reaches its last state. -/
theorem reach_of_checked {ok : σ → α → Bool} (sound : ∀ s a, ok s a = true → allow s a) {steps : List α}
    (ran : runChecked next ok s steps = some t) : Reach next allow s t := by
  induction steps generalizing s with
  | nil =>
    cases ran
    exact .refl
  | cons a rest ih =>
    rw [runChecked] at ran
    split at ran
    · rename_i checked
      obtain ⟨u, taken, ran⟩ := Option.bind_eq_some_iff.1 ran
      exact Reach.trans (.next a .refl (sound s a checked) taken) (ih ran)
    · cases ran

/-- A run with its steps and the states in which they were taken, the first one first. -/
inductive Trace (next : σ → α → Option σ) (allow : σ → α → Prop) (s₀ : σ) : List (σ × α) → σ → Prop
  | nil : Trace next allow s₀ [] s₀
  | snoc {steps : List (σ × α)} {s t : σ} (a : α) (prior : Trace next allow s₀ steps s) (allowed : allow s a)
      (taken : next s a = some t) : Trace next allow s₀ (steps ++ [(s, a)]) t

theorem Trace.reach {steps : List (σ × α)} (trace : Trace next allow s₀ steps s) : Reach next allow s₀ s := by
  induction trace with
  | nil => exact .refl
  | snoc a _ allowed taken ih => exact .next a ih allowed taken

/-- Every state that is reached has a run to it. -/
theorem Reach.trace (reach : Reach next allow s₀ s) : ∃ steps, Trace next allow s₀ steps s := by
  induction reach with
  | refl => exact ⟨[], .nil⟩
  | next a _ allowed taken ih =>
    obtain ⟨steps, prior⟩ := ih
    exact ⟨_, .snoc a prior allowed taken⟩

end Steps
