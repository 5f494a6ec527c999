import Windylane.Lib.Table
import Mathlib.Order.Lattice
import Mathlib.Data.List.Pairwise

/-! Keyset pagination. A list of rows is read in pages, the greatest keys first, and each page starts after the key of
    the last row of the page before. The rows can change between two pages: `rows n` is what the `n`-th page is taken
    from. A row that is there all the time is then on exactly one of the pages. -/

namespace Keyset

variable {ρ κ : Type} [LinearOrder κ] {key : ρ → κ}

/-- The rows after a cursor. -/
def after (key : ρ → κ) (cursor : Option κ) (rows : List ρ) : List ρ :=
  rows.filter fun r => cursor.all fun k => key r < k

theorem mem_after {cursor : Option κ} {rows : List ρ} {r : ρ} :
    r ∈ after key cursor rows ↔ r ∈ rows ∧ ∀ k, cursor = some k → key r < k := by
  cases cursor <;> simp [after]

/-- A page of `rows`, and the key after which the next one starts. -/
structure IsPage (key : ρ → κ) (rows items : List ρ) (next : Option κ) : Prop where
  descending : items.Pairwise fun a b => key b < key a
  among : ∀ r ∈ items, r ∈ rows
  /-- The cursor is the key of a row of the page, and of no later one. -/
  held : ∀ k, next = some k → ∃ r ∈ items, key r = k
  passed : ∀ k, next = some k → ∀ r ∈ items, k ≤ key r
  left : ∀ r ∈ rows, r ∈ items ∨ ∃ k, next = some k ∧ key r < k

/-! ### One page -/

/-- The first `limit` rows of those that were asked for, and the last of them when that was not all. -/
def cut (limit : Nat) (rows : List ρ) : List ρ × Option ρ :=
  if limit < rows.length then (rows.take limit, (rows.take limit).getLast?) else (rows, none)

theorem descending_of_sorted {l : List ρ} (sorted : l.Pairwise fun a b => key b ≤ key a) (distinct : (l.map key).Nodup) :
    l.Pairwise fun a b => key b < key a := by
  have apart : l.Pairwise fun a b => key a ≠ key b := List.pairwise_map.1 distinct
  exact (sorted.and apart).imp fun ⟨le, ne⟩ => lt_of_le_of_ne le (Ne.symm ne)

/-- Asking for one row more than a page has shows whether there is a next one. -/
theorem cut_isPage {before : ρ → ρ → Bool} (order : ∀ a b, before a b = true ↔ key b < key a) {limit : Nat}
    (pos : 0 < limit) {rows : List ρ} (distinct : (rows.map key).Nodup) :
    IsPage key rows (cut limit (Table.firstBy before (limit + 1) rows)).1
      ((cut limit (Table.firstBy before (limit + 1) rows)).2.map key) := by
  obtain ⟨rest, perm, sorted, full⟩ := Table.firstBy_split (R := fun a b => key b ≤ key a)
    (fun a b yes => le_of_lt ((order a b).1 yes))
    (fun a b no => not_lt.1 fun lt => by simp [(order a b).2 lt] at no)
    (fun _ _ _ ab bc => le_trans bc ab) (limit + 1) rows
  have descending := descending_of_sorted sorted ((perm.map key).nodup_iff.2 distinct)
  have size : (Table.firstBy before (limit + 1) rows).length ≤ limit + 1 := by
    simp [Table.firstBy]
  generalize Table.firstBy before (limit + 1) rows = asked at perm sorted full descending size ⊢
  unfold cut
  split
  · rename_i more
    -- The page is what comes before the one row more, and the rest is what comes from there on.
    have cutAt : asked ++ rest = asked.take limit ++ (asked.drop limit ++ rest) := by
      rw [← List.append_assoc, List.take_append_drop]
    rw [cutAt] at perm descending
    obtain ⟨first, -, across⟩ := List.pairwise_append.1 descending
    have ne : asked.take limit ≠ [] := by
      intro none
      rw [List.take_eq_nil_iff] at none
      rcases none with zero | empty
      · omega
      · simp [empty] at more
    have last : (asked.take limit).getLast? = some ((asked.take limit).getLast ne) := List.getLast?_eq_some_getLast ne
    simp only [last, Option.map_some]
    refine ⟨first, fun r hr => perm.mem_iff.1 (List.mem_append_left _ hr), fun k hk => ?_, fun k hk r hr => ?_,
      fun r hr => ?_⟩
    · exact ⟨_, List.getLast_mem ne, Option.some.inj hk⟩
    · cases hk
      rw [← List.dropLast_append_getLast ne] at hr first
      rcases List.mem_append.1 hr with earlier | same
      · exact le_of_lt ((List.pairwise_append.1 first).2.2 r earlier _ (List.mem_singleton.2 rfl))
      · rw [List.mem_singleton.1 same]
    · rcases List.mem_append.1 (perm.mem_iff.2 hr) with page | later
      · exact Or.inl page
      · exact Or.inr ⟨_, rfl, across _ (List.getLast_mem ne) r later⟩
  · rename_i all
    have none : rest = [] := by
      by_contra some
      exact all (by rw [full some]; omega)
    subst none
    rw [List.append_nil] at perm descending
    exact ⟨descending, fun r hr => perm.mem_iff.1 hr, fun k hk => (by cases hk), fun k hk => (by cases hk),
      fun r hr => Or.inl (perm.mem_iff.2 hr)⟩

/-! ### One page after the other -/

/-- The pages from the `n`-th fetch on, after `cursor`; the last flag says that there is no page after them. -/
inductive Walk (key : ρ → κ) (rows : Nat → List ρ) : Nat → Option κ → List (List ρ) → Bool → Prop
  | stop (n : Nat) (cursor : Option κ) : Walk key rows n cursor [] false
  | last {n : Nat} {cursor : Option κ} {items : List ρ} (page : IsPage key (after key cursor (rows n)) items none) :
      Walk key rows n cursor [items] true
  | more {n : Nat} {cursor : Option κ} {items : List ρ} {k : κ} {pages : List (List ρ)} {done : Bool}
      (page : IsPage key (after key cursor (rows n)) items (some k)) (rest : Walk key rows (n + 1) (some k) pages done) :
      Walk key rows n cursor (items :: pages) done

namespace Walk

variable {rows : Nat → List ρ} {n : Nat} {cursor : Option κ} {pages : List (List ρ)} {done : Bool}

/-- What a page holds was there when the page was fetched. -/
theorem among (walk : Walk key rows n cursor pages done) : ∀ i items, pages[i]? = some items → ∀ r ∈ items, r ∈ rows (n + i) := by
  induction walk with
  | stop => simp
  | last page =>
    rintro (_ | i) items found r hr
    · cases found
      exact (mem_after.1 (page.among r hr)).1
    · simp at found
  | more page _ ih =>
    rintro (_ | i) items found r hr
    · cases found
      exact (mem_after.1 (page.among r hr)).1
    · have there := ih i items (by simpa using found) r hr
      rwa [Nat.add_right_comm, Nat.add_assoc] at there

theorem mem_rows (walk : Walk key rows n cursor pages done) {r : ρ} (hr : r ∈ pages.flatten) : ∃ m, r ∈ rows m := by
  obtain ⟨items, hitems, hr⟩ := List.mem_flatten.1 hr
  obtain ⟨i, found⟩ := List.mem_iff_getElem?.1 hitems
  exact ⟨_, walk.among i items found r hr⟩

/-- All rows of the pages come after the cursor. -/
theorem under (walk : Walk key rows n cursor pages done) : ∀ r ∈ pages.flatten, ∀ k, cursor = some k → key r < k := by
  induction walk with
  | stop => simp
  | last page =>
    intro r hr
    rw [List.flatten_singleton] at hr
    exact (mem_after.1 (page.among r hr)).2
  | @more n cursor items next pages done page rest ih =>
    intro r hr
    rw [List.flatten_cons] at hr
    rcases List.mem_append.1 hr with here | later
    · exact (mem_after.1 (page.among r here)).2
    · intro k hk
      obtain ⟨q, hq, same⟩ := page.held next rfl
      calc key r < next := ih r later next rfl
        _ = key q := same.symm
        _ < k := (mem_after.1 (page.among q hq)).2 k hk

theorem descending (walk : Walk key rows n cursor pages done) : pages.flatten.Pairwise fun a b => key b < key a := by
  induction walk with
  | stop => exact List.Pairwise.nil
  | last page =>
    rw [List.flatten_singleton]
    exact page.descending
  | @more n cursor items next pages done page rest ih =>
    rw [List.flatten_cons]
    exact List.pairwise_append.2 ⟨page.descending, ih,
      fun a ha b hb => lt_of_lt_of_le (rest.under b hb next rfl) (page.passed next rfl a ha)⟩

/-- A key that is in the rows at every fetch is on a page, once there is no page left. -/
theorem complete (walk : Walk key rows n cursor pages done) (finished : done = true) {k : κ}
    (start : ∀ c, cursor = some c → k < c) (there : ∀ i < pages.length, ∃ r ∈ rows (n + i), key r = k) :
    ∃ r ∈ pages.flatten, key r = k := by
  induction walk with
  | stop => cases finished
  | last page =>
    obtain ⟨r, hr, rfl⟩ := there 0 (by simp)
    rcases page.left r (mem_after.2 ⟨hr, start⟩) with here | ⟨_, none, -⟩
    · exact ⟨r, by simpa using here, rfl⟩
    · cases none
  | @more n cursor items next pages done page rest ih =>
    obtain ⟨r, hr, rfl⟩ := there 0 (by simp)
    rcases page.left r (mem_after.2 ⟨hr, start⟩) with here | ⟨c, hc, later⟩
    · exact ⟨r, List.mem_append_left _ here, rfl⟩
    · cases hc
      obtain ⟨q, hq, same⟩ := ih finished (fun c hc => by cases hc; exact later) fun i hi => by
        have := there (i + 1) (by simpa using hi)
        rwa [← Nat.add_assoc, Nat.add_right_comm] at this
      exact ⟨q, List.mem_append_right _ hq, same⟩

/-! ### Rows that stop changing -/

theorem length_after_le (key : ρ → κ) (cursor : Option κ) (rows : List ρ) : (after key cursor rows).length ≤ rows.length :=
  List.length_filter_le _ _

/-- A page with a next one leaves fewer rows for it. -/
theorem after_shrinks {rows items : List ρ} {k : κ} (page : IsPage key (after key cursor rows) items (some k)) :
    (after key (some k) rows).length < (after key cursor rows).length := by
  obtain ⟨r, hr, rfl⟩ := page.held k rfl
  obtain ⟨mem, bound⟩ := mem_after.1 (page.among r hr)
  have inner : after key (some (key r)) rows = (after key cursor rows).filter fun q => key q < key r := by
    simp only [after, List.filter_filter]
    refine List.filter_congr fun q _ => ?_
    cases cursor with
    | none => simp
    | some c =>
      have : key r < c := bound c rfl
      by_cases lt : key q < key r
      · simp [lt, lt_trans lt this]
      · simp [lt]
  rw [inner]
  exact List.length_filter_lt_length_iff_exists.2 ⟨r, mem_after.2 ⟨mem, bound⟩, by simp⟩

/-- Rows that do not change after fetch `settled` are read by then, or in as many pages as there are rows at most. -/
theorem length_le (walk : Walk key rows n cursor pages done) (unfinished : done = false) {settled : Nat}
    (same : ∀ m, settled ≤ m → rows m = rows settled) :
    pages.length ≤ (settled - n) + (rows settled).length ∧
      (settled ≤ n → pages.length ≤ (after key cursor (rows settled)).length) := by
  induction walk with
  | stop => simp
  | last => cases unfinished
  | @more n cursor items next pages done page rest ih =>
    obtain ⟨total, tail⟩ := ih unfinished
    have settledCase : settled ≤ n → pages.length + 1 ≤ (after key cursor (rows settled)).length := by
      intro le
      rw [same n le] at page
      have := tail (by omega)
      have := after_shrinks page
      omega
    refine ⟨?_, settledCase⟩
    rw [List.length_cons]
    by_cases le : settled ≤ n
    · have := settledCase le
      have := length_after_le key cursor (rows settled)
      omega
    · omega

end Walk

end Keyset
