import Mathlib.Algebra.Order.Archimedean.Basic
import Mathlib.Data.Rat.Floor
import Mathlib.Tactic.Linarith
import Mathlib.Tactic.Ring

/-! What a number becomes that is read into a binary64 float and written again: the nearest float, ties to even, and of it
    the decimal with the fewest digits that reads back as the same float. Floats are the rationals they denote; numbers too
    large for the format are left out. -/

namespace Float64

/-- A power with an exponent of either sign. -/
def pow (base : Nat) : Int → Rat
  | .ofNat n => (base ^ n : Nat)
  | .negSucc n => 1 / (base ^ (n + 1) : Nat)

/-- The nearest whole number, ties to even. -/
def roundEven (q : Rat) : Int :=
  if q - ⌊q⌋ < 1 / 2 ∨ q - ⌊q⌋ = 1 / 2 ∧ ⌊q⌋ % 2 = 0 then ⌊q⌋ else ⌊q⌋ + 1

/-- The exponent of the largest power of two that is not above `|q|`. -/
def exponent (q : Rat) : Int :=
  let e : Int := q.num.natAbs.log2 - q.den.log2
  if pow 2 e ≤ |q| then e else e - 1

/-- The distance of the floats around `q`: 52 bits below the first, and never less than the least float. -/
def unit (q : Rat) : Rat := pow 2 (max (exponent q - 52) (-1074))

def nearest (q : Rat) : Rat := if q = 0 then 0 else roundEven (q / unit q) * unit q

/-- The multiples of `u` on either side of `f`, the closer one first. -/
def around (f u : Rat) : List Rat :=
  let below := ⌊f / u⌋ * u
  if f - below ≤ below + u - f then [below, below + u] else [below + u, below]

/-- Look for a multiple of a power of ten that reads back as `f`, from the exponent `j` downwards. -/
def shortestFrom (f : Rat) : Nat → Int → Rat
  | 0, _ => f
  | fuel + 1, j =>
    match (around f (pow 10 j)).find? fun d => nearest d = f with
    | some d => d
    | none => shortestFrom f fuel (j - 1)

/-- The decimal that a float is written as. The search starts above the float and ends below the least one. -/
def shortest (f : Rat) : Rat :=
  let start := ⌊|f|⌋.natAbs.log2 + 1
  shortestFrom f (start + 330) start

/-- The number that is written for a number that was read. -/
def rewritten (q : Rat) : Rat := shortest (nearest q)

/-! ### Rounding -/

theorem pow_pos (base : Nat) (positive : 0 < base) (e : Int) : 0 < pow base e := by
  cases e with
  | ofNat n =>
    change (0 : Rat) < (base ^ n : Nat)
    exact_mod_cast Nat.pow_pos (n := n) positive
  | negSucc n =>
    have : (0 : Rat) < (base ^ (n + 1) : Nat) := by exact_mod_cast Nat.pow_pos (n := n + 1) positive
    exact div_pos one_pos this

theorem roundEven_int (n : Int) : roundEven n = n := by
  simp [roundEven]

theorem roundEven_error (q : Rat) : |(roundEven q : Rat) - q| ≤ 1 / 2 := by
  have low := Int.floor_le q
  have high := Int.lt_floor_add_one q
  unfold roundEven
  split
  · rename_i down
    have : q - ⌊q⌋ ≤ 1 / 2 := down.elim le_of_lt fun tie => tie.1.le
    exact abs_le.2 ⟨by linarith, by linarith⟩
  · rename_i up
    have : 1 / 2 ≤ q - ⌊q⌋ := not_lt.1 fun less => up (Or.inl less)
    push_cast
    exact abs_le.2 ⟨by linarith, by linarith⟩

theorem nearest_error {q : Rat} (nonzero : q ≠ 0) : |nearest q - q| ≤ unit q / 2 := by
  have positive : 0 < unit q := pow_pos 2 (by decide) _
  have scaled : nearest q - q = (roundEven (q / unit q) - q / unit q) * unit q := by
    rw [nearest, if_neg nonzero, sub_mul, div_mul_cancel₀ _ positive.ne']
  rw [scaled, abs_mul, abs_of_pos positive]
  have := mul_le_mul_of_nonneg_right (roundEven_error (q / unit q)) positive.le
  linarith

/-- A multiple of its unit is a float. -/
theorem nearest_of_multiple {q : Rat} (k : Int) (multiple : q / unit q = k) : nearest q = q := by
  have positive : 0 < unit q := pow_pos 2 (by decide) _
  unfold nearest
  split
  · exact Eq.symm ‹_›
  · rw [multiple, roundEven_int, ← multiple, div_mul_cancel₀ _ positive.ne']

/-! ### Whole numbers -/

theorem exponent_int {n : Int} (nonzero : n ≠ 0) : exponent n = n.natAbs.log2 := by
  have below : ((2 ^ n.natAbs.log2 : Nat) : Rat) ≤ |(n : Rat)| := by
    have : 2 ^ n.natAbs.log2 ≤ n.natAbs := Nat.log2_self_le (Int.natAbs_ne_zero.2 nonzero)
    have : ((2 ^ n.natAbs.log2 : Nat) : Rat) ≤ (n.natAbs : Rat) := by exact_mod_cast this
    rwa [Nat.cast_natAbs, Int.cast_abs] at this
  have whole : ((n : Rat).num.natAbs.log2 : Int) - ((n : Rat).den.log2 : Int) = Int.ofNat n.natAbs.log2 := by
    rw [Rat.num_intCast, Rat.den_intCast, show Nat.log2 1 = 0 by decide]
    simp
  unfold exponent
  dsimp only
  rw [if_pos]
  · exact whole
  · rw [whole]
    exact below

theorem pow_neg (base k : Nat) : pow base (-k) = 1 / (base ^ k : Nat) := by
  cases k with
  | zero => simp [pow]
  | succ k => rfl

/-- The whole numbers up to `2 ^ 53` are floats. -/
theorem nearest_int {n : Int} (small : n.natAbs ≤ 2 ^ 53) : nearest n = n := by
  by_cases zero : n = 0
  · subst zero
    simp [nearest]
  by_cases less : n.natAbs < 2 ^ 53
  · have bits : n.natAbs.log2 < 53 := (Nat.log2_lt (Int.natAbs_ne_zero.2 zero)).2 less
    have scale : unit n = 1 / (2 ^ (52 - n.natAbs.log2) : Nat) := by
      rw [unit, exponent_int zero, ← pow_neg]
      congr 1
      omega
    refine nearest_of_multiple (n * (2 ^ (52 - n.natAbs.log2) : Nat)) ?_
    rw [scale]
    push_cast
    rw [div_div_eq_mul_div, div_one]
  · have edge : n = 2 ^ 53 ∨ n = -2 ^ 53 := by omega
    rcases edge with rfl | rfl <;> decide +kernel

/-- Any other whole number that is not next to them is read as a float above. -/
theorem nearest_large {n : Int} (large : 2 ^ 53 + 2 ≤ n.natAbs) : (2 : Rat) ^ 53 < |nearest n| := by
  have zero : n ≠ 0 := by omega
  have bits : 53 ≤ n.natAbs.log2 := by
    by_contra less
    have := (Nat.log2_lt (Int.natAbs_ne_zero.2 zero)).1 (Nat.lt_of_not_le less)
    omega
  have size : (2 : Rat) ^ 53 + 2 ≤ |(n : Rat)| := by
    have : ((2 ^ 53 + 2 : Nat) : Rat) ≤ (n.natAbs : Rat) := by exact_mod_cast large
    rw [Nat.cast_natAbs, Int.cast_abs] at this
    norm_num at this ⊢
    exact this
  have scale : unit n * 2 ^ 52 ≤ |(n : Rat)| := by
    have whole : unit n = ((2 ^ (n.natAbs.log2 - 52) : Nat) : Rat) := by
      rw [unit, exponent_int zero, show max ((n.natAbs.log2 : Int) - 52) (-1074) = Int.ofNat (n.natAbs.log2 - 52) by
        simp only [Int.ofNat_eq_natCast]
        omega]
      rfl
    have : 2 ^ (n.natAbs.log2 - 52) * 2 ^ 52 ≤ n.natAbs := by
      rw [← Nat.pow_add, show n.natAbs.log2 - 52 + 52 = n.natAbs.log2 by omega]
      exact Nat.log2_self_le (Int.natAbs_ne_zero.2 zero)
    have : ((2 ^ (n.natAbs.log2 - 52) * 2 ^ 52 : Nat) : Rat) ≤ (n.natAbs : Rat) := by exact_mod_cast this
    rw [Nat.cast_natAbs, Int.cast_abs, Nat.cast_mul, ← whole] at this
    push_cast at this
    exact this
  have error := nearest_error (q := (n : Rat)) (by exact_mod_cast zero)
  have triangle : |(n : Rat)| - |nearest n - n| ≤ |nearest n| := by
    have := abs_sub_abs_le_abs_sub (n : Rat) (nearest n)
    rw [abs_sub_comm] at this
    linarith
  norm_num at *
  linarith

/-! ### Writing -/

/-- A whole number that reads back as one up to `2 ^ 53` is that number, unless it is next to the largest. -/
theorem eq_of_nearest {n d : Int} (small : n.natAbs ≤ 2 ^ 53) (apart : d.natAbs ≠ 2 ^ 53 + 1) (back : nearest d = n) : d = n := by
  rcases Nat.lt_or_ge (2 ^ 53) d.natAbs with large | less
  · have := nearest_large (n := d) (by omega)
    rw [back] at this
    have bound : |(n : Rat)| ≤ (2 : Rat) ^ 53 := by
      have : (n.natAbs : Rat) ≤ ((2 ^ 53 : Nat) : Rat) := by exact_mod_cast small
      rw [Nat.cast_natAbs, Int.cast_abs] at this
      push_cast at this
      exact this
    exact absurd bound (not_le.2 this)
  · rw [nearest_int less] at back
    exact_mod_cast back

theorem around_tens {f d : Rat} {j : Nat} (mem : d ∈ around f (pow 10 (j + 1 : Nat))) : ∃ k : Int, d = ((10 * k : Int) : Rat) := by
  have tens : pow 10 (j + 1 : Nat) = ((10 * 10 ^ j : Int) : Rat) := by
    rw [show ((j + 1 : Nat) : Int) = Int.ofNat (j + 1) from rfl, pow, Nat.pow_succ']
    push_cast
    rfl
  have below : ∀ m : Int, (m : Rat) * pow 10 (j + 1 : Nat) = ((10 * (m * 10 ^ j) : Int) : Rat) := fun m => by
    rw [tens]
    push_cast
    ring
  have candidates : d = ⌊f / pow 10 (j + 1 : Nat)⌋ * pow 10 (j + 1 : Nat) ∨
      d = ⌊f / pow 10 (j + 1 : Nat)⌋ * pow 10 (j + 1 : Nat) + pow 10 (j + 1 : Nat) := by
    unfold around at mem
    dsimp only at mem
    split at mem
    · simpa using mem
    · simpa [or_comm] using mem
  rcases candidates with rfl | rfl
  · exact ⟨_, below _⟩
  · refine ⟨(⌊f / pow 10 (j + 1 : Nat)⌋ + 1) * 10 ^ j, ?_⟩
    rw [← below]
    push_cast
    ring

theorem shortestFrom_int {n : Int} (small : n.natAbs ≤ 2 ^ 53) (j : Nat) {fuel : Nat} (enough : j < fuel) :
    shortestFrom n fuel j = n := by
  induction j generalizing fuel with
  | zero =>
    obtain ⟨fuel, rfl⟩ := Nat.exists_eq_add_one_of_ne_zero (Nat.ne_of_gt enough)
    have first : (around n (pow 10 (0 : Nat))).find? (fun d => decide (nearest d = n)) = some (n : Rat) := by
      simp [around, pow, nearest_int small]
    rw [shortestFrom, first]
  | succ j ih =>
    obtain ⟨fuel, rfl⟩ := Nat.exists_eq_add_one_of_ne_zero (Nat.ne_of_gt (Nat.zero_lt_of_lt enough))
    rw [shortestFrom]
    split
    · rename_i d found
      have back : nearest d = n := by simpa using List.find?_some found
      obtain ⟨k, rfl⟩ := around_tens (List.mem_of_find?_eq_some found)
      rw [eq_of_nearest small (by omega) back]
    · rw [show ((j + 1 : Nat) : Int) - 1 = j by omega]
      exact ih (by omega)

theorem rewritten_int {n : Int} (small : n.natAbs ≤ 2 ^ 53) : rewritten n = n := by
  rw [rewritten, nearest_int small]
  exact shortestFrom_int small _ (by omega)

end Float64
