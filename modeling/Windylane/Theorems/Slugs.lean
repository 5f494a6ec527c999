import Windylane.Service.Workflows
import Windylane.Calls
import Windylane.Theorems.Keys

/-! The slug that is generated from the name of a workflow, when a request gives none. -/

namespace Windylane

/-- A letter or a digit of the slug alphabet. -/
def isSlugChar (c : Char) : Bool := ('a' ≤ c && c ≤ 'z') || ('0' ≤ c && c ≤ '9')

/-- What is used of the `unicode` and `strings` packages: lower-casing goes character by character and makes a letter or
    digit of the slug alphabet of every ASCII letter or digit, and what it gives that is ASCII is a letter or a digit when
    it is one of the slug alphabet. -/
structure Host.Unicode (h : Host) (lower : Char → Char) : Prop where
  toLower : ∀ s, (h.toLower s).toList = s.toList.map lower
  plain : ∀ c : Char, c.isAlphanum = true → isSlugChar (lower c) = true
  ascii : ∀ c : Char, (lower c).toNat ≤ 0x7f → (h.isLetterOrDigit (lower c) = true ↔ isSlugChar (lower c) = true)

/-! ### The pattern -/

theorem isSlugChar_ascii {c : Char} (slug : isSlugChar c = true) : c.toNat ≤ 0x7f := by
  simp only [isSlugChar, Bool.or_eq_true, Bool.and_eq_true, decide_eq_true_eq, Char.le_def, UInt32.le_iff_toNat_le] at slug
  change c.val.toNat ≤ 0x7f
  have z : 'z'.val.toNat = 122 := rfl
  have nine : '9'.val.toNat = 57 := rfl
  omega

theorem isSlugChar_ne_dash {c : Char} (slug : isSlugChar c = true) : c ≠ '-' := by
  rintro rfl
  cases slug

theorem workflowSlugPattern_cons (c : Char) (rest : List Char) (word : Bool) : workflowSlugPattern (c :: rest) word =
    if c = '-' then word && workflowSlugPattern rest false else isSlugChar c && workflowSlugPattern rest true := rfl

/-- A text that the pattern accepts ends in a group, which can go on. -/
theorem workflowSlugPattern_append {text : List Char} {word : Bool} (accepted : workflowSlugPattern text word = true)
    (more : List Char) : workflowSlugPattern (text ++ more) word = workflowSlugPattern more true := by
  induction text generalizing word with
  | nil =>
    cases word with
    | false => cases accepted
    | true => rfl
  | cons c rest ih =>
    rw [workflowSlugPattern_cons] at accepted
    rw [List.cons_append, workflowSlugPattern_cons]
    split at accepted
    · rename_i dash
      rw [Bool.and_eq_true] at accepted
      rw [if_pos dash, accepted.1, Bool.true_and, ih accepted.2]
    · rename_i other
      rw [Bool.and_eq_true] at accepted
      rw [if_neg other, accepted.1, Bool.true_and, ih accepted.2]

theorem workflowSlugPattern_char {c : Char} (slug : isSlugChar c = true) (word : Bool) : workflowSlugPattern [c] word = true := by
  rw [workflowSlugPattern_cons, if_neg (isSlugChar_ne_dash slug), slug]
  rfl

/-- Groups of letters and digits, with a dash between two. -/
structure IsSlug (text : List Char) : Prop where
  accepted : workflowSlugPattern text false = true
  first : ∃ c rest, text = c :: rest ∧ c ≠ '-'
  last : ∃ front c, text = front ++ [c] ∧ c ≠ '-'
  ascii : ∀ c ∈ text, c.toNat ≤ 0x7f

theorem isSlug_char {c : Char} (slug : isSlugChar c = true) : IsSlug [c] where
  accepted := workflowSlugPattern_char slug false
  first := ⟨c, [], rfl, isSlugChar_ne_dash slug⟩
  last := ⟨[], c, rfl, isSlugChar_ne_dash slug⟩
  ascii := fun q hq => by
    rw [List.mem_singleton.1 hq]
    exact isSlugChar_ascii slug

/-- A slug goes on with a letter or digit, after a dash or not. -/
theorem IsSlug.append {text : List Char} (h : IsSlug text) {c : Char} (slug : isSlugChar c = true) {between : List Char}
    (dash : between = [] ∨ between = ['-']) : IsSlug (text ++ (between ++ [c])) where
  accepted := by
    rw [workflowSlugPattern_append h.accepted]
    rcases dash with rfl | rfl
    · exact workflowSlugPattern_char slug true
    · exact workflowSlugPattern_char slug false
  first := by
    obtain ⟨q, rest, rfl, ne⟩ := h.first
    exact ⟨q, _, rfl, ne⟩
  last := ⟨text ++ between, c, (List.append_assoc _ _ _).symm, isSlugChar_ne_dash slug⟩
  ascii := by
    intro q hq
    rcases List.mem_append.1 hq with hq | hq
    · exact h.ascii q hq
    rcases List.mem_append.1 hq with hq | hq
    · rcases dash with rfl | rfl
      · cases hq
      · rw [List.mem_singleton.1 hq]
        decide
    · rw [List.mem_singleton.1 hq]
      exact isSlugChar_ascii slug

/-- Nothing is trimmed from a slug. -/
theorem IsSlug.trim {text : List Char} (h : IsSlug text) :
    ((text.dropWhile (· = '-')).reverse.dropWhile (· = '-')).reverse = text := by
  have first : text.dropWhile (· = '-') = text := by
    obtain ⟨c, rest, rfl, ne⟩ := h.first
    rw [List.dropWhile_cons_of_neg (by simpa using ne)]
  obtain ⟨front, c, last, ne⟩ := h.last
  rw [first, last, List.reverse_append, List.reverse_singleton, List.singleton_append,
    List.dropWhile_cons_of_neg (by simpa using ne), List.reverse_cons, List.reverse_reverse]

/-! ### The loop -/

section Loop
variable {h : Host} {lower : Char → Char}

/-- The text is a slug as soon as there is some, it is no longer than what was read, and every ASCII letter or digit goes
    into it. -/
theorem slugLoop_spec (unicode : h.Unicode lower) (name : List Char) {text : List Char} (separator : Bool)
    (start : text = [] ∨ IsSlug text) :
    (slugLoop h (name.map lower) text separator = [] ∨ IsSlug (slugLoop h (name.map lower) text separator)) ∧
      (slugLoop h (name.map lower) text separator).length ≤ text.length + separator.toNat + name.length ∧
      ((∃ c ∈ name, c.isAlphanum = true) ∨ text ≠ [] → slugLoop h (name.map lower) text separator ≠ []) := by
  induction name generalizing text separator with
  | nil =>
    refine ⟨start, by simp [slugLoop], ?_⟩
    rintro (⟨c, hc, -⟩ | some)
    · cases hc
    · exact some
  | cons c rest ih =>
    -- a character that does not go into the text is not an ASCII letter or digit
    have skipped : ∀ {separator' : Bool}, isSlugChar (lower c) = false → separator'.toNat ≤ separator.toNat + 1 →
        (slugLoop h (rest.map lower) text separator' = [] ∨ IsSlug (slugLoop h (rest.map lower) text separator')) ∧
          (slugLoop h (rest.map lower) text separator').length ≤ text.length + separator.toNat + (c :: rest).length ∧
          ((∃ q ∈ c :: rest, q.isAlphanum = true) ∨ text ≠ [] → slugLoop h (rest.map lower) text separator' ≠ []) := by
      intro separator' other due
      obtain ⟨slug, short, full⟩ := ih separator' start
      refine ⟨slug, by rw [List.length_cons]; omega, fun given => full (given.imp_left ?_)⟩
      rintro ⟨q, hq, plain⟩
      rcases List.mem_cons.1 hq with rfl | hq
      · rw [unicode.plain q plain] at other
        cases other
      · exact ⟨q, hq, plain⟩
    rw [List.map_cons]
    unfold slugLoop
    split
    · rename_i letter
      split
      · rename_i ascii
        have slug := (unicode.ascii c ascii).1 letter
        have next : IsSlug (text ++ if separator && !text.isEmpty then ['-', lower c] else [lower c]) := by
          rcases start with rfl | start
          · simpa using isSlug_char slug
          · split
            · exact start.append slug (Or.inr rfl)
            · exact start.append slug (Or.inl rfl)
        obtain ⟨slug, short, full⟩ := ih false (Or.inr next)
        refine ⟨slug, short.trans ?_, fun _ => full (Or.inr (by split <;> simp))⟩
        rw [List.length_append, List.length_cons]
        cases separator with
        | false => simp [Nat.add_comm, Nat.add_left_comm]
        | true =>
          simp only [Bool.toNat_true, Bool.toNat_false]
          split
          · simp
            omega
          · simp
      · rename_i foreign
        refine skipped ?_ (by omega)
        rw [← Bool.not_eq_true]
        exact fun slug => foreign (isSlugChar_ascii slug)
    · rename_i other
      refine skipped ?_ (by simp)
      rw [← Bool.not_eq_true]
      exact fun slug => other ((unicode.ascii c (isSlugChar_ascii slug)).2 slug)

/-- ASCII letters and digits are all kept. -/
theorem slugLoop_letters {name : List Char} (letters : ∀ c ∈ name, h.isLetterOrDigit c = true ∧ c.toNat ≤ 0x7f) (text : List Char) :
    slugLoop h name text false = text ++ name := by
  induction name generalizing text with
  | nil => exact (List.append_nil _).symm
  | cons c rest ih =>
    obtain ⟨letter, ascii⟩ := letters c List.mem_cons_self
    rw [slugLoop, if_pos letter, if_pos ascii, ih fun q hq => letters q (List.mem_cons_of_mem _ hq)]
    simp

end Loop

theorem validateWorkflowSlug_long {s : String} (long : workflowSlugMax < s.utf8ByteSize) : validateWorkflowSlug s = false := by
  simp [validateWorkflowSlug, Nat.not_le.2 long]

/-- A request without a slug is refused when the one that is generated is not accepted. -/
theorem requestedDraft_refused {h : Host} {input : CreateWorkflowInput} {name : String}
    (accepted : normalizeWorkflowName input.name = some name) (blank : trimSpace input.slug = "")
    (refused : validateWorkflowSlug (generateWorkflowSlug h name) = false) : requestedDraft h input = none := by
  simp only [requestedDraft, accepted, blank, if_true, Option.bind_eq_bind, Option.bind_some, refused]
  rfl

/-- A host that knows no letters and digits but the ASCII ones. -/
def asciiHost : Host := { sampleHost with toLower := fun s => String.ofList (s.toList.map Char.toLower) }

theorem toLower_ascii : ∀ n < 128, ((Char.ofNat n).isAlphanum = true → isSlugChar (Char.ofNat n).toLower = true) ∧
    ((Char.ofNat n).toLower.isAlphanum = true ↔ isSlugChar (Char.ofNat n).toLower = true) := by
  have all : ((List.range 128).map Char.ofNat).all (fun c => (!c.isAlphanum || isSlugChar c.toLower) &&
      c.toLower.isAlphanum == isSlugChar c.toLower) = true := by decide +kernel
  intro n hn
  have one := List.all_eq_true.1 all _ (List.mem_map_of_mem (List.mem_range.2 hn))
  simp only [Bool.and_eq_true, Bool.or_eq_true, Bool.not_eq_true', beq_iff_eq] at one
  exact ⟨fun plain => one.1.resolve_left (by simp [plain]), by rw [one.2]⟩

theorem asciiHost_unicode : asciiHost.Unicode Char.toLower where
  toLower := fun s => String.toList_ofList
  plain := fun c plain => by
    have ascii : c.toNat < 128 := by
      have below {high : UInt32} (le : c.val ≤ high) (ascii : high.toNat < 128) : c.toNat < 128 :=
        (UInt32.le_iff_toNat_le.1 le).trans_lt ascii
      rcases Bool.or_eq_true_iff.1 plain with letter | digit
      · rcases Bool.or_eq_true_iff.1 letter with upper | lower
        · exact below (of_decide_eq_true upper).2 (by decide)
        · exact below (of_decide_eq_true (Bool.and_eq_true_iff.1 lower).2) (by decide)
      · exact below (of_decide_eq_true (Bool.and_eq_true_iff.1 digit).2) (by decide)
    have := (toLower_ascii c.toNat ascii).1
    rw [Char.ofNat_toNat] at this
    exact this plain
  ascii := fun c ascii => by
    have ascii : c.toNat < 128 := by
      by_contra large
      have same : c.toLower = c := by
        refine dif_neg fun upper => large ?_
        have z : 'Z'.val.toNat = 90 := rfl
        have := UInt32.le_iff_toNat_le.1 upper.2
        change c.val.toNat < 128
        omega
      rw [same] at ascii
      omega
    have := (toLower_ascii c.toNat ascii).2
    rwa [Char.ofNat_toNat] at this

end Windylane
