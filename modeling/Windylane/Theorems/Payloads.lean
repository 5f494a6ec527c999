import Mathlib.Data.String.Basic
import Windylane.Theorems.Advance

/-! What becomes of the JSON value of a payload: it is read into floats and maps and written again before it is stored and
    before the fingerprint of the request is taken. -/

namespace Windylane

open Conc Script Prog

namespace Json

mutual

/-- The value that a text denotes: an object is a map, in which the last of repeated keys stays, and a number is exact.
    Maps are kept in key order, so texts of the same value have the same meaning. -/
def meaning : Json → Json
  | .null => .null
  | .bool b => .bool b
  | .num q => .num q
  | .str s => .str s
  | .arr items => .arr (itemsMeaning items)
  | .obj members => .obj (membersMeaning members [])

def itemsMeaning : List Json → List Json
  | [] => []
  | x :: xs => meaning x :: itemsMeaning xs

def membersMeaning : List (String × Json) → List (String × Json) → List (String × Json)
  | [], seen => seen
  | (key, value) :: rest, seen => membersMeaning rest (setMember key (meaning value) seen)

end

mutual

/-- `P` holds of every number in a value. -/
def Numbers (P : Rat → Prop) : Json → Prop
  | .num q => P q
  | .arr items => ItemNumbers P items
  | .obj members => MemberNumbers P members
  | _ => True

def ItemNumbers (P : Rat → Prop) : List Json → Prop
  | [] => True
  | x :: xs => Numbers P x ∧ ItemNumbers P xs

def MemberNumbers (P : Rat → Prop) : List (String × Json) → Prop
  | [] => True
  | (_, value) :: rest => Numbers P value ∧ MemberNumbers P rest

end

/-- A whole number that a float holds, as do all whole numbers that are closer to zero. -/
def Exact (q : Rat) : Prop := ∃ n : Int, q = n ∧ n.natAbs ≤ 2 ^ 53

mutual

/-- A value without other numbers is written as it was read. -/
theorem normalize_exact : ∀ v : Json, v.Numbers Exact → v.normalize = v.meaning
  | .null, _ => rfl
  | .bool _, _ => rfl
  | .num _, ⟨_, same, small⟩ => congrArg Json.num (same ▸ Float64.rewritten_int small)
  | .str _, _ => rfl
  | .arr items, same => congrArg Json.arr (normalizeItems_exact items same)
  | .obj members, same => congrArg Json.obj (normalizeMembers_exact members [] same)

theorem normalizeItems_exact : ∀ items : List Json, ItemNumbers Exact items → normalizeItems items = itemsMeaning items
  | [], _ => rfl
  | x :: xs, same => by rw [normalizeItems, itemsMeaning, normalize_exact x same.1, normalizeItems_exact xs same.2]

theorem normalizeMembers_exact : ∀ (members seen : List (String × Json)), MemberNumbers Exact members →
    normalizeMembers members seen = membersMeaning members seen
  | [], _, _ => rfl
  | (key, value) :: rest, seen, same => by
    rw [normalizeMembers, membersMeaning, normalize_exact value same.1, normalizeMembers_exact rest _ same.2]

end

/-- The keys of a map, in their order. -/
def Ordered (members : List (String × Json)) : Prop := members.Pairwise fun a b => a.1 < b.1

theorem mem_setMember {key : String} {value : Json} {seen : List (String × Json)} {m : String × Json}
    (mem : m ∈ setMember key value seen) : m = (key, value) ∨ m ∈ seen := by
  induction seen with
  | nil => exact Or.inl (List.mem_singleton.1 mem)
  | cons first rest ih =>
    obtain ⟨k, v⟩ := first
    unfold setMember at mem
    split at mem
    · exact List.mem_cons.1 mem
    split at mem
    · exact (List.mem_cons.1 mem).imp_right (List.mem_cons_of_mem _)
    · rcases List.mem_cons.1 mem with rfl | mem
      · exact Or.inr List.mem_cons_self
      · exact (ih mem).imp_right (List.mem_cons_of_mem _)

theorem setMember_ordered {key : String} {value : Json} {seen : List (String × Json)} (ordered : Ordered seen) :
    Ordered (setMember key value seen) := by
  induction seen with
  | nil => exact List.pairwise_singleton _ _
  | cons first rest ih =>
    obtain ⟨k, v⟩ := first
    obtain ⟨above, ordered'⟩ := List.pairwise_cons.1 ordered
    unfold setMember
    split
    · rename_i less
      refine List.pairwise_cons.2 ⟨fun m hm => ?_, ordered⟩
      rcases List.mem_cons.1 hm with rfl | hm
      · exact less
      · exact lt_trans less (above m hm)
    · rename_i notLess
      split
      · rename_i same
        exact List.pairwise_cons.2 ⟨fun m hm => same ▸ above m hm, ordered'⟩
      · rename_i different
        refine List.pairwise_cons.2 ⟨fun m hm => ?_, ih ordered'⟩
        rcases mem_setMember hm with rfl | hm
        · exact lt_of_le_of_ne (not_lt.1 notLess) (Ne.symm different)
        · exact above m hm

/-- A key above all others goes to the end. -/
theorem setMember_last {key : String} {value : Json} {seen : List (String × Json)} (above : ∀ m ∈ seen, m.1 < key) :
    setMember key value seen = seen ++ [(key, value)] := by
  induction seen with
  | nil => rfl
  | cons first rest ih =>
    obtain ⟨k, v⟩ := first
    have less : k < key := above _ List.mem_cons_self
    rw [setMember, if_neg (lt_asymm less), if_neg less.ne', ih fun m hm => above m (List.mem_cons_of_mem _ hm),
      List.cons_append]

theorem membersMeaning_ordered (members : List (String × Json)) {seen : List (String × Json)} (ordered : Ordered seen) :
    Ordered (membersMeaning members seen) := by
  induction members generalizing seen with
  | nil => exact ordered
  | cons m rest ih => exact ih (setMember_ordered ordered)

/-- Reading a map again gives the same map. -/
theorem membersMeaning_fixed {members : List (String × Json)} (seen : List (String × Json)) (ordered : Ordered (seen ++ members))
    (fixed : ∀ m ∈ members, m.2.meaning = m.2) : membersMeaning members seen = seen ++ members := by
  induction members generalizing seen with
  | nil => exact (List.append_nil _).symm
  | cons m rest ih =>
    obtain ⟨key, value⟩ := m
    have last : setMember key value seen = seen ++ [(key, value)] :=
      setMember_last fun m hm => (List.pairwise_append.1 ordered).2.2 m hm _ List.mem_cons_self
    have value_fixed : value.meaning = value := fixed _ List.mem_cons_self
    rw [membersMeaning, value_fixed, last, ih _ (by simpa using ordered) fun m hm => fixed m (List.mem_cons_of_mem _ hm)]
    simp

mutual

theorem meaning_idem : ∀ v : Json, v.meaning.meaning = v.meaning
  | .null => rfl
  | .bool _ => rfl
  | .num _ => rfl
  | .str _ => rfl
  | .arr items => congrArg Json.arr (itemsMeaning_idem items)
  | .obj members => congrArg Json.obj
      ((membersMeaning_fixed [] (membersMeaning_ordered members List.Pairwise.nil)
        (membersMeaning_idem members [] nofun)).trans (List.nil_append _))

theorem itemsMeaning_idem : ∀ items : List Json, itemsMeaning (itemsMeaning items) = itemsMeaning items
  | [] => rfl
  | x :: xs => by rw [itemsMeaning, itemsMeaning, meaning_idem x, itemsMeaning_idem xs]

theorem membersMeaning_idem : ∀ (members seen : List (String × Json)), (∀ m ∈ seen, m.2.meaning = m.2) →
    ∀ m ∈ membersMeaning members seen, m.2.meaning = m.2
  | [], _, fixed => fixed
  | (_, value) :: rest, seen, fixed => membersMeaning_idem rest _ fun m hm => by
    rcases mem_setMember hm with rfl | hm
    · exact meaning_idem value
    · exact fixed m hm

end

end Json

/-! ### Requests -/

/-- What the fingerprint of a request for a task is the digest of. -/
def requestBytes (h : Host) (input : CreateTaskInput) (payload : Json) : String :=
  h.marshal (.obj [
    ("queue", .str input.queue),
    ("payload", payload),
    ("priority", .num input.priority),
    ("max_retries", .num input.maxRetries),
    ("timeout_ms", .num (input.timeout.tdiv 1000)),
    ("visibility_timeout_ms", .num (input.visibilityTimeout.tdiv 1000)),
    ("scheduled_at", match input.scheduledAt with
      | some t => .str (h.formatTime t)
      | none => .null),
    ("backoff_strategy", .str input.backoffStrategy)])

theorem requestFingerprint_eq (h : Host) {input : CreateTaskInput} {v : Json} (payload : input.payload = .json v) :
    requestFingerprint h input = some (h.sha256 (requestBytes h input v.normalize), .json v.normalize) := by
  unfold requestFingerprint
  rw [payload]
  rfl

/-- What the fingerprint of a request for an execution is the digest of. -/
def executionBytes (h : Host) (workflowID : UUID) (version : Int) (input : Json) : String :=
  h.marshal (.obj [("workflow_id", .str workflowID.text), ("version", .num version), ("input", input)])

theorem workflowExecutionFingerprint_eq (h : Host) (workflowID : UUID) (version : Int) (input : Json) :
    workflowExecutionFingerprint h workflowID version (.json input) = h.sha256 (executionBytes h workflowID version input) := rfl

/-- A task is stored with a payload that denotes `v`. -/
def Op.KeepsPayload (v : Json) (o : Op) : Prop :=
  ∀ t, o = .task (.create t) → ∃ p, t.payload = .json p ∧ p.meaning = v.meaning

/-- An execution is stored with an input that denotes `v`. -/
def Op.KeepsInput (v : Json) (o : Op) : Prop :=
  ∀ x nodes, o = .canvas (.insertWorkflowExecution x nodes) → ∃ p, x.input = .json p ∧ p.meaning = v.meaning

theorem createTask_keeps (h : Host) {v : Json} (exact : v.Numbers Json.Exact) {input : CreateTaskInput}
    (payload : input.payload = .json v) : (createTask h input).Calls (Op.KeepsPayload v) := by
  have calls : (createTask h input).Calls (Op.within (.dispatching (fun t => t.payload = .json v.meaning) fun _ => True)) := by
    refine createTask_calls (fun _ _ => trivial) (fun _ => trivial) h input fun fingerprint stored request id now => ?_
    rw [requestFingerprint_eq h payload, Json.normalize_exact v exact] at request
    cases request
    unfold requestedTask
    split <;> rfl
  refine calls.mono ?_
  rintro _ within t rfl
  exact ⟨v.meaning, within, v.meaning_idem⟩

theorem startExecution_keeps (h : Host) {v : Json} (exact : v.Numbers Json.Exact) {input : StartWorkflowExecutionInput}
    (given : input.input = .json v) : (startExecution h input).Calls (Op.KeepsInput v) := by
  have dispatched : ∀ o, Op.within (.dispatching (fun _ => True) fun _ => True) o → Op.KeepsInput v o := by
    rintro _ within x nodes rfl
    exact within.elim
  refine startExecution_in (closed_calls fun _ keeps => keeps) ?_ h ?_ ?_ input ?_
  · rintro _ advances x nodes rfl
    exact advances.elim
  · exact fun _ _ _ _ _ => (dispatchWorkflowTask_calls (fun _ _ => trivial) (fun _ => trivial) h _ _ _ _ _
      fun _ _ _ => trivial).mono dispatched
  · exact fun _ _ _ => (dispatchWorkflowWebhook_calls h _ _ _ fun _ _ => trivial).mono dispatched
  · rintro x nodes normalized x' nodes' same
    cases same
    rw [given] at normalized
    refine ⟨v.meaning, ?_, v.meaning_idem⟩
    rw [← Json.normalize_exact v exact]
    exact (Option.some.inj normalized).symm

def charsNumber : List Char → Nat
  | [] => 0
  | c :: rest => Nat.pair c.toNat (charsNumber rest) + 1

theorem charsNumber_injective : Function.Injective charsNumber := by
  intro a b same
  induction a generalizing b with
  | nil =>
    cases b with
    | nil => rfl
    | cons => cases same
  | cons c rest ih =>
    cases b with
    | nil => cases same
    | cons d others =>
      obtain ⟨first, later⟩ := Nat.pair_eq_pair.1 (Nat.succ.inj same)
      rw [Char.toNat_inj.1 first, ih later]

namespace Json

mutual

def number : Json → Nat
  | .null => Nat.pair 0 0
  | .bool b => Nat.pair 1 b.toNat
  | .num q => Nat.pair 2 (Nat.pair (if q.num < 0 then 1 else 0) (Nat.pair q.num.natAbs q.den))
  | .str s => Nat.pair 3 (charsNumber s.toList)
  | .arr items => Nat.pair 4 (itemsNumber items)
  | .obj members => Nat.pair 5 (membersNumber members)

def itemsNumber : List Json → Nat
  | [] => 0
  | x :: xs => Nat.pair (number x) (itemsNumber xs) + 1

def membersNumber : List (String × Json) → Nat
  | [] => 0
  | (key, value) :: rest => Nat.pair (charsNumber key.toList) (Nat.pair (number value) (membersNumber rest)) + 1

end

mutual

theorem number_injective : ∀ a b : Json, a.number = b.number → a = b
  | .null, b, same => by cases b <;> simp [number, Nat.pair_eq_pair] at same ⊢
  | .bool a, b, same => by
    cases b with
    | bool b =>
      have same := (Nat.pair_eq_pair.1 same).2
      cases a <;> cases b <;> first | rfl | cases same
    | _ => simp [number, Nat.pair_eq_pair] at same
  | .num q, b, same => by
    cases b with
    | num r =>
      obtain ⟨sign, size, den⟩ : _ ∧ q.num.natAbs = r.num.natAbs ∧ q.den = r.den := by
        simpa only [number, Nat.pair_eq_pair, true_and] using same
      have num : q.num = r.num := by
        split at sign <;> split at sign <;> omega
      exact congrArg Json.num (Rat.ext num den)
    | _ => simp [number, Nat.pair_eq_pair] at same
  | .str _, b, same => by
    cases b <;> simp [number, Nat.pair_eq_pair] at same
    exact congrArg Json.str (String.toList_inj.1 (charsNumber_injective same))
  | .arr items, b, same => by
    cases b <;> simp [number, Nat.pair_eq_pair] at same
    exact congrArg Json.arr (itemsNumber_injective items _ same)
  | .obj members, b, same => by
    cases b <;> simp [number, Nat.pair_eq_pair] at same
    exact congrArg Json.obj (membersNumber_injective members _ same)

theorem itemsNumber_injective : ∀ a b : List Json, itemsNumber a = itemsNumber b → a = b
  | [], [], _ => rfl
  | x :: xs, y :: ys, same => by
    obtain ⟨first, later⟩ := Nat.pair_eq_pair.1 (Nat.succ.inj same)
    rw [number_injective x y first, itemsNumber_injective xs ys later]
  | [], _ :: _, same => by cases same
  | _ :: _, [], same => by cases same

theorem membersNumber_injective : ∀ a b : List (String × Json), membersNumber a = membersNumber b → a = b
  | [], [], _ => rfl
  | (_, v) :: xs, (_, w) :: ys, same => by
    obtain ⟨key, later⟩ := Nat.pair_eq_pair.1 (Nat.succ.inj same)
    obtain ⟨value, later⟩ := Nat.pair_eq_pair.1 later
    rw [String.toList_inj.1 (charsNumber_injective key), number_injective v w value, membersNumber_injective xs ys later]
  | [], _ :: _, same => by cases same
  | _ :: _, [], same => by cases same

end

end Json

def writingHost : Host := { sampleHost with marshal := fun v => String.ofList (List.replicate v.number 'a') }

theorem writingHost_marshal : Function.Injective writingHost.marshal := by
  intro a b same
  refine Json.number_injective a b ?_
  have := congrArg (fun s : String => s.toList.length) same
  simpa [writingHost] using this

end Windylane
