import Mathlib.Algebra.BigOperators.Group.List.Basic
import Mathlib.Algebra.Ring.Nat
import Mathlib.Data.List.Nodup
import Windylane.Lib.History

/-! Debts. By some calls a process comes to owe something, and by others it pays. When no process owes anything any more,
    as much was paid in the whole run as was owed in it; so a note that follows every transition is made as often as the
    transition. The other half is that a transition is made once: a mark that a call leaves is not there before it and
    stays for good. -/

namespace Conc

variable {M : Machine} {δ : Type}

/-! ### One process -/

/-- What `f` says of the calls, each by the calls before it; the last one comes first. -/
def entries (f : List M.Exchange → M.Exchange → List δ) : List M.Exchange → List δ
  | [] => []
  | c :: before => f before c ++ entries f before

/-- What a call makes its process owe, and what it pays. -/
structure Accounts (M : Machine) (δ : Type) where
  incurs : List M.Exchange → M.Exchange → List δ
  pays : List M.Exchange → M.Exchange → List δ

namespace Accounts
variable {A : Accounts M δ} {debts debts' : List δ} {past : List M.Exchange}

/-- A process that made these calls still owes these debts. -/
def Owes (A : Accounts M δ) (debts : List δ) (past : List M.Exchange) : Prop :=
  (entries A.incurs past.reverse).Perm (debts ++ entries A.pays past.reverse)

theorem owes_nil : A.Owes [] [] := .refl _

theorem Owes.call (owes : A.Owes debts past) {c : M.Exchange}
    (next : (A.incurs past.reverse c ++ debts).Perm (debts' ++ A.pays past.reverse c)) : A.Owes debts' (past ++ [c]) := by
  unfold Owes at owes ⊢
  rw [List.reverse_append]
  have grown : (A.incurs past.reverse c ++ entries A.incurs past.reverse).Perm
      (A.incurs past.reverse c ++ debts ++ entries A.pays past.reverse) := by
    rw [List.append_assoc]
    exact owes.append_left _
  refine grown.trans ((next.append_right _).trans ?_)
  rw [List.append_assoc]
  exact .refl _

end Accounts

/-! ### All processes -/

/-- The sum over the calls of all processes, each by the calls of its process before it. -/
def total (f : List M.Exchange → M.Exchange → Nat) (trace : List (Event M)) : Nat → Nat
  | 0 => 0
  | pid + 1 => total f trace pid + ((entries (fun before c => [f before c]) (history pid trace).reverse)).sum

section Totals
variable {f g : List M.Exchange → M.Exchange → Nat} {trace : List (Event M)}

theorem entries_sum_congr {calls : List M.Exchange}
    (same : ∀ later c before, calls = later ++ c :: before → f before c = g before c) :
    (entries (fun before c => [f before c]) calls).sum = (entries (fun before c => [g before c]) calls).sum := by
  induction calls with
  | nil => rfl
  | cons c before ih =>
    have here := same [] c before rfl
    have rest := ih fun later d before' split => same (c :: later) d before' (by rw [split]; rfl)
    simp only [entries, List.singleton_append, List.sum_cons, here, rest]

theorem total_congr {n : Nat} (same : ∀ pid past c rest, history pid trace = past ++ c :: rest → f past.reverse c = g past.reverse c) :
    total f trace n = total g trace n := by
  induction n with
  | zero => rfl
  | succ pid ih =>
    have own : (entries (fun before c => [f before c]) (history pid trace).reverse).sum =
        (entries (fun before c => [g before c]) (history pid trace).reverse).sum := by
      refine entries_sum_congr fun later c before split => ?_
      have past := same pid before.reverse c later.reverse (by
        rw [← List.reverse_reverse (history pid trace), split]
        simp)
      rwa [List.reverse_reverse] at past
    rw [total, total, ih, own]

theorem total_mul (k : Nat) (n : Nat) : total (fun before c => f before c * k) trace n = total f trace n * k := by
  have own : ∀ calls : List M.Exchange, (entries (fun before c => [f before c * k]) calls).sum =
      (entries (fun before c => [f before c]) calls).sum * k := by
    intro calls
    induction calls with
    | nil => simp [entries]
    | cons c before ih => simp [entries, ih, Nat.add_mul]
  induction n with
  | zero => simp [total]
  | succ pid ih => rw [total, total, ih, own, Nat.add_mul]

/-- The calls of the first processes are those of all but the last one, and of the last one. -/
theorem filter_pid_sum (value : Event M → Nat) (pid : Nat) (trace : List (Event M)) :
    ((trace.filter (·.pid < pid + 1)).map value).sum =
      ((trace.filter (·.pid < pid)).map value).sum + ((trace.filter (·.pid = pid)).map value).sum := by
  induction trace with
  | nil => rfl
  | cons e rest ih =>
    rw [List.filter_cons, List.filter_cons, List.filter_cons]
    simp only [decide_eq_true_eq]
    rcases Nat.lt_trichotomy e.pid pid with less | same | more
    · rw [if_pos (Nat.lt_succ_of_lt less), if_pos less, if_neg (Nat.ne_of_lt less), List.map_cons, List.map_cons, List.sum_cons,
        List.sum_cons, ih]
      omega
    · rw [if_pos (by omega), if_neg (by omega), if_pos same, List.map_cons, List.map_cons, List.sum_cons, List.sum_cons, ih]
      omega
    · rw [if_neg (by omega), if_neg (by omega), if_neg (by omega), ih]

/-- What does not depend on the calls before is summed over the trace. -/
theorem total_plain (value : M.Exchange → Nat) {n : Nat} (started : ∀ e ∈ trace, e.pid < n) :
    total (fun _ c => value c) trace n = (trace.map fun e => value ⟨e.op, e.answer⟩).sum := by
  have plain : ∀ calls : List M.Exchange, (entries (fun _ c => [value c]) calls).sum = (calls.map value).sum := by
    intro calls
    induction calls with
    | nil => rfl
    | cons c before ih => simp [entries, ih]
  have sums : ∀ n, total (fun _ c => value c) trace n =
      ((trace.filter (·.pid < n)).map fun e => value ⟨e.op, e.answer⟩).sum := by
    intro n
    induction n with
    | zero => simp [total]
    | succ pid ih =>
      rw [total, ih, plain, filter_pid_sum, List.map_reverse, List.sum_reverse, history, List.map_map, List.map_reverse,
        List.sum_reverse]
      rfl
  rw [sums, List.filter_eq_self.2 fun e he => decide_eq_true (started e he)]

end Totals

/-- When no process owes anything, as much was paid as was owed. -/
theorem Accounts.settled [DecidableEq δ] {A : Accounts M δ} {trace : List (Event M)} {n : Nat}
    (paid : ∀ pid < n, A.Owes [] (history pid trace)) (d : δ) :
    total (fun before c => (A.pays before c).count d) trace n = total (fun before c => (A.incurs before c).count d) trace n := by
  have counts : ∀ (f : List M.Exchange → M.Exchange → List δ) calls,
      (entries (fun before c => [(f before c).count d]) calls).sum = (entries f calls).count d := by
    intro f calls
    induction calls with
    | nil => rfl
    | cons c before ih => simp [entries, ih]
  induction n with
  | zero => rfl
  | succ pid ih =>
    have own := paid pid (Nat.lt_succ_self pid)
    rw [total, total, ih fun p less => paid p (Nat.lt_succ_of_lt less), counts, counts, own.count_eq, List.nil_append]

/-! ### Marks -/

/-- Marks that calls leave: `may` says where a mark can have been left, and `must` where it was. -/
structure Marks (M : Machine) (μ : Type) where
  marks : M.Exchange → List μ
  may : M.World → μ → Prop
  must : M.World → μ → Prop

namespace Marks
variable {μ : Type} {L : Marks M μ}

/-- The marks of a run. -/
def trail (L : Marks M μ) (trace : List (Event M)) : List μ := trace.flatMap fun e => L.marks ⟨e.op, e.answer⟩

/-- No mark was left twice, and the world shows which ones were left. -/
structure Kept (L : Marks M μ) (c : Config M) : Prop where
  once : (L.trail c.trace).Nodup
  may : ∀ m ∈ L.trail c.trace, L.may c.world m
  must : ∀ m, L.must c.world m → m ∈ L.trail c.trace

/-- What is left was not there before and is there now, and nothing else comes to be there. -/
structure Leaves (L : Marks M μ) (left : List μ) (w w' : M.World) : Prop where
  once : left.Nodup
  new : ∀ m ∈ left, ¬ L.may w m ∧ L.may w' m ∧ L.must w' m
  lasts : ∀ m, L.may w m → L.may w' m
  only : ∀ m, L.must w' m → L.must w m ∨ m ∈ left

theorem Kept.step {c : Config M} (kept : L.Kept c) {pid : Nat} {env : M.Env} {o : M.Op}
    (leaves : L.Leaves (L.marks ⟨o, (M.exec env o c.world).1⟩) c.world (M.exec env o c.world).2) : L.Kept (c.after pid env o) where
  once := List.Nodup.append leaves.once kept.once fun m here before => (leaves.new m here).1 (kept.may m before)
  may := fun m hm => by
    rcases List.mem_append.1 hm with here | before
    · exact (leaves.new m here).2.1
    · exact leaves.lasts m (kept.may m before)
  must := fun m hm => by
    rcases leaves.only m hm with before | here
    · exact List.mem_append_right _ (kept.must m before)
    · exact List.mem_append_left _ here

theorem trail_suffix {earlier later : List (Event M)} (h : earlier <:+ later) {m : μ} (hm : m ∈ L.trail earlier) :
    m ∈ L.trail later := by
  obtain ⟨more, rfl⟩ := h
  rw [trail, List.flatMap_append]
  exact List.mem_append_right _ hm

/-- What was left in a run, some state of it showed. -/
theorem left_during {Req Res : Type} {body : Req → Prog M.toSignature Res} {actions : List (Action M Req)}
    {s₀ s : System M Req Res} (run : s₀.run body actions = some s)
    (leaves : ∀ before t pid env o, before <+: actions → s₀.run body before = some t → .step pid env ∈ actions →
      t.Calling pid o → ∀ m ∈ L.marks ⟨o, (M.exec env o t.config.world).1⟩, L.must (M.exec env o t.config.world).2 m)
    {m : μ} (hm : m ∈ L.trail s.config.trace) : m ∈ L.trail s₀.config.trace ∨
      ∃ before u, before <+: actions ∧ s₀.run body before = some u ∧ L.must u.config.world m := by
  induction actions generalizing s₀ with
  | nil =>
    cases run
    exact Or.inl hm
  | cons a actions ih =>
    obtain ⟨u, taken, rest⟩ := Option.bind_eq_some_iff.mp run
    have first : ∀ before, s₀.run body (a :: before) = u.run body before := fun before => by rw [System.run, taken]; rfl
    have later := ih rest fun before t pid env o beginning ran step => by
      refine leaves (a :: before) t pid env o (List.prefix_cons_inj a |>.2 beginning) ?_ (List.mem_cons_of_mem _ step)
      rw [first, ran]
    rcases later with already | ⟨before, v, beginning, ran, shown⟩
    · rcases System.next_cases taken with ⟨_, -, rfl⟩ | ⟨pid, env, request, o, k, rfl, hp, rfl⟩ | ⟨_, _, -, -, rfl⟩
      · exact Or.inl already
      · rcases List.mem_append.1 already with here | before
        · refine Or.inr ⟨[.step pid env], _, List.prefix_append [_] actions, first [], ?_⟩
          exact leaves [] s₀ pid env o List.nil_prefix rfl List.mem_cons_self ⟨request, k, hp⟩ m here
        · exact Or.inl before
      · exact Or.inl already
    · exact Or.inr ⟨a :: before, v, List.prefix_cons_inj a |>.2 beginning, by rw [first, ran], shown⟩

end Marks

end Conc
