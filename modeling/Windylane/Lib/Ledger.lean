import Mathlib.Data.List.Nodup
import Windylane.Lib.History

/-! Notes and marks. Some calls make marks, and some note a mark that their process made before. When no process notes a
    mark more often than it made it, and no mark is made twice in the whole run, then no note is made twice. -/

namespace Conc

variable {M : Machine} {μ ν : Type}

/-- What is marked, and what is noted of which mark. -/
structure Ledger (M : Machine) (μ ν : Type) where
  marks : M.Exchange → List μ
  notes : M.Op → Option ν
  of : ν → μ

namespace Ledger

variable (L : Ledger M μ ν)

/-- A mark that a process made, and of which it noted only `done` since. -/
def Pending (m : μ) (done : List ν) (past : List M.Exchange) : Prop :=
  ∃ before c between, past = before ++ c :: between ∧ m ∈ L.marks c ∧ L.notes c.1 = none ∧
    ∀ x ∈ between, ∀ n, L.notes x.1 = some n → L.of n = m → n ∈ done

/-- What a call notes was marked before, and was not noted since. -/
def Follows (past : List M.Exchange) (o : M.Op) : Prop :=
  ∀ n, L.notes o = some n → ∃ done, n ∉ done ∧ L.Pending (L.of n) done past

variable {L} {m : μ} {done done' : List ν} {past : List M.Exchange}

theorem Pending.marked {c : M.Exchange} (hm : m ∈ L.marks c) (quiet : L.notes c.1 = none) (past : List M.Exchange) :
    L.Pending m done (past ++ [c]) :=
  ⟨past, c, [], rfl, hm, quiet, fun _ hx => by cases hx⟩

theorem Pending.append {more : List M.Exchange} (pending : L.Pending m done past) (sub : done ⊆ done')
    (noted : ∀ x ∈ more, ∀ n, L.notes x.1 = some n → L.of n = m → n ∈ done') : L.Pending m done' (past ++ more) := by
  obtain ⟨before, c, between, rfl, hm, quiet, only⟩ := pending
  refine ⟨before, c, between ++ more, by simp, hm, quiet, fun x hx n hn he => ?_⟩
  rcases List.mem_append.1 hx with old | new
  · exact sub (only x old n hn he)
  · exact noted x new n hn he

/-! ### Counting -/

variable (L) [DecidableEq μ]

def marked (past : List M.Exchange) : List μ := past.flatMap L.marks

def noted (past : List M.Exchange) : List ν := past.filterMap fun c => L.notes c.1

/-- The marks of a run. -/
def trail (trace : List (Event M)) : List μ := trace.flatMap fun e => L.marks ⟨e.op, e.answer⟩

variable {L}

theorem count_history (p : Nat) (m : μ) (trace : List (Event M)) :
    (L.marked (history p trace)).count m ≤ (L.trail trace).count m := by
  induction trace with
  | nil => simp [history, marked, trail]
  | cons e rest ih =>
    simp only [trail, List.flatMap_cons, List.count_append] at ih ⊢
    by_cases mine : e.pid = p
    · simp only [history_self mine, marked, List.flatMap_append, List.count_append, List.flatMap_singleton] at ih ⊢
      omega
    · rw [history_other mine]
      omega

theorem count_histories {p q : Nat} (ne : p ≠ q) (m : μ) (trace : List (Event M)) :
    (L.marked (history p trace)).count m + (L.marked (history q trace)).count m ≤ (L.trail trace).count m := by
  induction trace with
  | nil => simp [history, marked, trail]
  | cons e rest ih =>
    simp only [trail, List.flatMap_cons, List.count_append] at ih ⊢
    by_cases first : e.pid = p
    · have other : e.pid ≠ q := first ▸ ne
      rw [history_other other]
      simp only [history_self first, marked, List.flatMap_append, List.count_append, List.flatMap_singleton] at ih ⊢
      omega
    · rw [history_other first]
      by_cases second : e.pid = q
      · simp only [history_self second, marked, List.flatMap_append, List.count_append, List.flatMap_singleton] at ih ⊢
        omega
      · rw [history_other second]
        omega

/-! ### Coverage -/

variable (L) [DecidableEq ν]

/-- In whatever a process did up to some call of it, it noted no mark more often than it made it. -/
def Covered (past : List M.Exchange) : Prop :=
  ∀ before, before <+: past → ∀ n, (L.noted before).count n ≤ (L.marked before).count (L.of n)

variable {L}

theorem covered_nil : L.Covered [] := by
  intro before sub n
  rw [List.prefix_nil.1 sub]
  exact Nat.zero_le _

/-- The note that follows a mark is covered by it. -/
theorem Covered.pending (covered : L.Covered past) {n : ν} (fresh : n ∉ done) (pending : L.Pending (L.of n) done past) :
    (L.noted past).count n < (L.marked past).count (L.of n) := by
  obtain ⟨before, c, between, rfl, hm, quiet, only⟩ := pending
  have none : (L.noted between).count n = 0 := by
    refine List.count_eq_zero.2 fun mem => ?_
    obtain ⟨x, hx, hn⟩ := List.mem_filterMap.1 mem
    exact fresh (only x hx n hn rfl)
  have some : 0 < (L.marks c).count (L.of n) := List.count_pos_iff.2 hm
  have before := covered before (List.prefix_append _ _) n
  simp only [noted, marked, List.filterMap_append, List.filterMap_cons, quiet, List.flatMap_append, List.flatMap_cons,
    List.count_append] at none before ⊢
  omega

theorem Covered.snoc (covered : L.Covered past) {o : M.Op} (follows : L.Follows past o) (r : M.Answer o) :
    L.Covered (past ++ [⟨o, r⟩]) := by
  intro before sub n
  rcases List.prefix_concat_iff.1 sub with rfl | old
  · have last := covered past (List.prefix_refl _) n
    simp only [noted, marked, List.filterMap_append, List.flatMap_append, List.count_append] at last ⊢
    by_cases notes : L.notes o = some n
    · obtain ⟨done, fresh, pending⟩ := follows n notes
      have less := covered.pending fresh pending
      simp only [noted, marked] at less
      simp [notes]
      omega
    · have none : (List.filterMap (fun c : M.Exchange => L.notes c.1) [⟨o, r⟩]).count n = 0 := by
        refine List.count_eq_zero.2 fun mem => ?_
        obtain ⟨x, hx, hn⟩ := List.mem_filterMap.1 mem
        rw [List.mem_singleton.1 hx] at hn
        exact notes hn
      omega
  · exact covered before old n

/-! ### Runs -/

variable {trace : List (Event M)}

/-- While no mark is made twice, a call that follows a mark notes something new. -/
theorem Follows.new {pid : Nat} {o : M.Op} {n : ν} (follows : L.Follows (history pid trace) o) (notes : L.notes o = some n)
    (once : (L.trail trace).Nodup) (covered : ∀ p, L.Covered (history p trace)) :
    ∀ e ∈ trace, L.notes e.op ≠ some n := by
  intro e he same
  have atMost := List.nodup_iff_count_le_one.1 once (L.of n)
  obtain ⟨done, fresh, pending⟩ := follows n notes
  have mine := (covered pid).pending fresh pending
  have theirs : 0 < (L.noted (history e.pid trace)).count n := by
    refine List.count_pos_iff.2 (List.mem_filterMap.2 ⟨⟨e.op, e.answer⟩, ?_, same⟩)
    refine List.mem_map.2 ⟨e, List.mem_reverse.2 (List.mem_filter.2 ⟨he, by simp⟩), rfl⟩
  by_cases actor : e.pid = pid
  · rw [actor] at theirs
    have := count_history (L := L) pid (L.of n) trace
    omega
  · have backed := covered e.pid _ (List.prefix_refl _) n
    have := count_histories (L := L) actor (L.of n) trace
    omega

end Ledger

end Conc
