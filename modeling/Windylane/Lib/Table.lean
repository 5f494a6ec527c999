import Mathlib.Data.List.Nodup

/-! Tables as lists of rows, and what the statements of a relational store do to them. `SELECT` is `find?` or
    `filter`, `INSERT` appends, and `UPDATE … WHERE` is `update`, which keeps the rows in place. -/

namespace Table

variable {ρ κ : Type}

/-- `UPDATE … SET f WHERE p`. -/
def update (p : ρ → Bool) (f : ρ → ρ) (rows : List ρ) : List ρ := rows.map fun r => if p r then f r else r

/-- The first `limit` rows in the order of `before`, rows of equal rank as they stand. -/
def firstBy (before : ρ → ρ → Bool) (limit : Nat) (rows : List ρ) : List ρ :=
  (rows.foldr insert []).take limit
where
  insert (r : ρ) : List ρ → List ρ
    | [] => [r]
    | s :: rest => if before r s then r :: s :: rest else s :: insert r rest

@[simp] theorem update_nil (p : ρ → Bool) (f : ρ → ρ) : update p f [] = [] := rfl

theorem mem_update {p : ρ → Bool} {f : ρ → ρ} {rows : List ρ} {r : ρ} :
    r ∈ update p f rows ↔ ∃ q ∈ rows, (if p q then f q else q) = r := List.mem_map

/-- A column that the update does not write. -/
theorem map_update {p : ρ → Bool} {f : ρ → ρ} (column : ρ → κ) (h : ∀ r, column (f r) = column r) (rows : List ρ) :
    (update p f rows).map column = rows.map column := by
  simp only [update, List.map_map]
  refine List.map_congr_left fun r _ => ?_
  simp only [Function.comp]
  split
  · exact h r
  · rfl

/-- The rows afterwards: each row is as it was or changed as `change` says, and the rows `added` are inserted. -/
def Rewrites (change : ρ → ρ → Prop) (added rows rows' : List ρ) : Prop :=
  ∃ f, rows' = rows.map f ++ added ∧ ∀ r ∈ rows, f r = r ∨ change r (f r)

section Rewrites
variable {change : ρ → ρ → Prop} {added rows rows' : List ρ}

theorem rewrites_insert (added : List ρ) : Rewrites change added rows (rows ++ added) :=
  ⟨id, by rw [List.map_id], fun _ _ => Or.inl rfl⟩

theorem rewrites_refl : Rewrites change [] rows rows := ⟨id, by simp, fun _ _ => Or.inl rfl⟩

theorem rewrites_of_eq (same : rows' = rows) : Rewrites change [] rows rows' := by
  subst same
  exact rewrites_refl

theorem rewrites_update {p : ρ → Bool} {f : ρ → ρ} (h : ∀ r ∈ rows, p r = true → change r (f r)) :
    Rewrites change [] rows (update p f rows) := by
  refine ⟨fun r => if p r then f r else r, (List.append_nil _).symm, fun r hr => ?_⟩
  simp only
  split
  · rename_i updated
    exact Or.inr (h r hr updated)
  · exact Or.inl rfl

/-- A row is still there. -/
theorem Rewrites.kept (h : Rewrites change added rows rows') {r : ρ} (hr : r ∈ rows) :
    ∃ r' ∈ rows', r' = r ∨ change r r' := by
  obtain ⟨f, rfl, changed⟩ := h
  exact ⟨f r, List.mem_append_left _ (List.mem_map_of_mem hr), changed r hr⟩

/-- Where a row comes from. -/
theorem Rewrites.source (h : Rewrites change added rows rows') {r' : ρ} (hr' : r' ∈ rows') :
    r' ∈ added ∨ ∃ r ∈ rows, r' = r ∨ change r r' := by
  obtain ⟨f, rfl, changed⟩ := h
  rcases List.mem_append.1 hr' with hr' | hr'
  · obtain ⟨r, hr, rfl⟩ := List.mem_map.1 hr'
    exact Or.inr ⟨r, hr, changed r hr⟩
  · exact Or.inl hr'

end Rewrites

theorem update_of_not {p : ρ → Bool} {f : ρ → ρ} {rows : List ρ} (h : ∀ r ∈ rows, p r = false) :
    update p f rows = rows := by
  refine (List.map_congr_left fun r hr => ?_).trans (List.map_id rows)
  simp [h r hr]

/-- An update that does not write what a selection reads commutes with it. -/
theorem filter_update {p q : ρ → Bool} {f : ρ → ρ} {rows : List ρ} (hq : ∀ r, q (f r) = q r) :
    (update p f rows).filter q = update p f (rows.filter q) := by
  induction rows with
  | nil => rfl
  | cons r rest ih =>
    simp only [update, List.map_cons, List.filter_cons] at ih ⊢
    have hr : q (if p r then f r else r) = q r := by
      split
      · exact hq r
      · rfl
    rw [hr]
    split
    · rw [List.map_cons, ih]
    · exact ih

/-- The same for the first selected row. -/
theorem find?_update {p q : ρ → Bool} {f : ρ → ρ} {rows : List ρ} (hq : ∀ r, q (f r) = q r) :
    (update p f rows).find? q = (rows.find? q).map fun r => if p r then f r else r := by
  induction rows with
  | nil => rfl
  | cons r rest ih =>
    have hr : q (if p r then f r else r) = q r := by
      split
      · exact hq r
      · rfl
    simp only [update, List.map_cons, List.find?_cons, hr] at ih ⊢
    cases q r with
    | true => rfl
    | false => exact ih

/-- Rows of a table with distinct keys are told apart by their keys. -/
theorem eq_of_key {key : ρ → κ} {rows : List ρ} (h : (rows.map key).Nodup) {r s : ρ} (hr : r ∈ rows) (hs : s ∈ rows)
    (he : key r = key s) : r = s := List.inj_on_of_nodup_map h hr hs he

/-- The same for a key that a row need not have. -/
theorem eq_of_filterMap {key : ρ → Option κ} {rows : List ρ} (h : (rows.filterMap key).Nodup) {r q : ρ} {k : κ}
    (hr : r ∈ rows) (hq : q ∈ rows) (kr : key r = some k) (kq : key q = some k) : r = q := by
  induction rows with
  | nil => cases hr
  | cons a rest ih =>
    have later : ∀ b ∈ rest, key a = some k → key b ≠ some k := by
      intro b hb ka kb
      rw [List.filterMap_cons_some ka] at h
      exact (List.nodup_cons.1 h).1 (List.mem_filterMap.2 ⟨b, hb, kb⟩)
    rcases List.mem_cons.1 hr with rfl | hr'
    · rcases List.mem_cons.1 hq with rfl | hq'
      · rfl
      · exact (later q hq' kr kq).elim
    · rcases List.mem_cons.1 hq with rfl | hq'
      · exact (later r hr' kq kr).elim
      · exact ih (h.sublist (List.Sublist.filterMap key (List.sublist_cons_self a rest))) hr' hq'

/-- The one row that a search which fixes the key can find. -/
theorem find?_unique {key : ρ → κ} {p : ρ → Bool} {rows : List ρ} (h : (rows.map key).Nodup) {r : ρ} (hr : r ∈ rows)
    (chosen : p r = true) (only : ∀ q, p q = true → key q = key r) : rows.find? p = some r := by
  cases hf : rows.find? p with
  | none => exact absurd chosen (List.find?_eq_none.1 hf r hr)
  | some q => rw [eq_of_key h (List.mem_of_find?_eq_some hf) hr (only q (List.find?_some hf))]

/-- The one row that a condition which fixes the key can hold of. -/
theorem countP_unique {key : ρ → κ} {p : ρ → Bool} {rows : List ρ} (h : (rows.map key).Nodup) {r : ρ} (hr : r ∈ rows)
    (chosen : p r = true) (only : ∀ q ∈ rows, p q = true → key q = key r) : rows.countP p = 1 := by
  induction rows with
  | nil => cases hr
  | cons q rest ih =>
    obtain ⟨new, h⟩ := List.nodup_cons.1 h
    rcases List.mem_cons.1 hr with rfl | hr'
    · rw [List.countP_cons_of_pos chosen, List.countP_eq_zero.2]
      intro s hs chosen'
      exact new (List.mem_map.2 ⟨s, hs, only s (List.mem_cons_of_mem _ hs) chosen'⟩)
    · rw [List.countP_cons_of_neg]
      · exact ih h hr' fun s hs => only s (List.mem_cons_of_mem _ hs)
      · intro chosen'
        exact new (List.mem_map.2 ⟨r, hr', (only q List.mem_cons_self chosen').symm⟩)

/-- Selecting by key finds the row that has it. -/
theorem find?_key [DecidableEq κ] {key : ρ → κ} {rows : List ρ} (h : (rows.map key).Nodup) {r : ρ} (hr : r ∈ rows) :
    rows.find? (fun q => key q = key r) = some r := by
  cases hf : rows.find? (fun q => key q = key r) with
  | none =>
    have := List.find?_eq_none.1 hf r hr
    simp at this
  | some q =>
    have hq : key q = key r := by simpa using List.find?_some hf
    rw [eq_of_key h (List.mem_of_find?_eq_some hf) hr hq]

theorem insert_perm (before : ρ → ρ → Bool) (r : ρ) (rows : List ρ) :
    (firstBy.insert before r rows).Perm (r :: rows) := by
  induction rows with
  | nil => exact .refl _
  | cons s rest ih =>
    simp only [firstBy.insert]
    split
    · exact .refl _
    · exact (ih.cons s).trans (.swap r s rest)

theorem sorted_perm (before : ρ → ρ → Bool) (rows : List ρ) :
    (rows.foldr (firstBy.insert before) []).Perm rows := by
  induction rows with
  | nil => exact .refl _
  | cons r rest ih => exact (insert_perm before r _).trans (ih.cons r)

/-- Ordering all the rows moves them only. -/
theorem firstBy_perm {before : ρ → ρ → Bool} {limit : Nat} {rows : List ρ} (h : rows.length ≤ limit) :
    (firstBy before limit rows).Perm rows := by
  have hp := sorted_perm before rows
  rw [firstBy, List.take_of_length_le (by rw [hp.length_eq]; exact h)]
  exact hp

/-- What an ordered selection returns is among the rows. -/
theorem mem_of_mem_firstBy {before : ρ → ρ → Bool} {limit : Nat} {rows : List ρ} {r : ρ}
    (h : r ∈ firstBy before limit rows) : r ∈ rows :=
  (sorted_perm before rows).mem_iff.1 (List.mem_of_mem_take h)

theorem firstBy_nodup {before : ρ → ρ → Bool} {limit : Nat} {key : ρ → κ} {rows : List ρ}
    (h : (rows.map key).Nodup) : ((firstBy before limit rows).map key).Nodup :=
  (((sorted_perm before rows).map key).nodup_iff.2 h).sublist ((List.take_sublist _ _).map key)

section Ordered
/-! `before` decides an order `R` of the rows: what comes before is in order, and what does not is in order the other way. -/
variable {before : ρ → ρ → Bool} {R : ρ → ρ → Prop} (yes : ∀ a b, before a b = true → R a b)
  (no : ∀ a b, before a b = false → R b a) (trans : ∀ a b c, R a b → R b c → R a c)
include yes no trans

theorem insert_pairwise (r : ρ) {rows : List ρ} (sorted : rows.Pairwise R) : (firstBy.insert before r rows).Pairwise R := by
  induction rows with
  | nil => exact List.pairwise_singleton _ _
  | cons s rest ih =>
    obtain ⟨first, sorted⟩ := List.pairwise_cons.1 sorted
    simp only [firstBy.insert]
    split
    · rename_i le
      refine List.pairwise_cons.2 ⟨fun q hq => ?_, List.pairwise_cons.2 ⟨first, sorted⟩⟩
      rcases List.mem_cons.1 hq with rfl | hq
      · exact yes _ _ le
      · exact trans _ _ _ (yes _ _ le) (first q hq)
    · rename_i gt
      refine List.pairwise_cons.2 ⟨fun q hq => ?_, ih sorted⟩
      rcases List.mem_cons.1 ((insert_perm before r rest).mem_iff.1 hq) with rfl | hq
      · exact no _ _ (Bool.eq_false_iff.2 gt)
      · exact first q hq

theorem sorted_pairwise (rows : List ρ) : (rows.foldr (firstBy.insert before) []).Pairwise R := by
  induction rows with
  | nil => exact List.Pairwise.nil
  | cons r rest ih => exact insert_pairwise yes no trans r ih

/-- An ordered selection splits the rows into those it returns, in order, and those that come after them. -/
theorem firstBy_split (limit : Nat) (rows : List ρ) : ∃ rest, (firstBy before limit rows ++ rest).Perm rows ∧
    (firstBy before limit rows ++ rest).Pairwise R ∧ (rest ≠ [] → (firstBy before limit rows).length = limit) := by
  refine ⟨(rows.foldr (firstBy.insert before) []).drop limit, ?_, ?_, fun more => ?_⟩
  · rw [firstBy, List.take_append_drop]
    exact sorted_perm before rows
  · rw [firstBy, List.take_append_drop]
    exact sorted_pairwise yes no trans rows
  · rw [firstBy, List.length_take]
    rw [Ne, List.drop_eq_nil_iff] at more
    omega

/-- The first row comes before every other one. -/
theorem firstBy_one {rows : List ρ} {r : ρ} {tail : List ρ} (first : firstBy before 1 rows = r :: tail) :
    r ∈ rows ∧ ∀ q ∈ rows, q = r ∨ R r q := by
  obtain ⟨rest, perm, sorted, -⟩ := firstBy_split yes no trans 1 rows
  rw [first] at perm sorted
  refine ⟨perm.mem_iff.1 (by simp), fun q hq => ?_⟩
  rcases List.mem_cons.1 (perm.mem_iff.2 hq) with same | after
  · exact Or.inl same
  · exact Or.inr ((List.pairwise_cons.1 sorted).1 q after)

end Ordered

theorem firstBy_eq_nil {before : ρ → ρ → Bool} {limit : Nat} {rows : List ρ} (pos : 0 < limit)
    (none : firstBy before limit rows = []) : rows = [] := by
  have sorted := sorted_perm before rows
  cases hs : rows.foldr (firstBy.insert before) [] with
  | nil => simpa [hs] using sorted.length_eq.symm
  | cons r rest =>
    obtain ⟨k, rfl⟩ := Nat.exists_eq_succ_of_ne_zero (Nat.ne_of_gt pos)
    simp [firstBy, hs] at none

end Table
