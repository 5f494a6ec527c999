import Windylane.Theorems.Metrics
import Windylane.Theorems.Priorities
import Windylane.Theorems.Validation

/-! The ids of metric events. The identity of an event is a text of parts between unit separators, and no part but the
    last can hold one, so it gives its parts back. With `notes_invariant`, the metrics of tasks and deliveries get
    different ids as long as no attempts are counted anew; with a requeue or a manual retry they do not. -/

namespace Windylane

open Conc

/-! ### Texts without spaces -/

/-- No spaces, and nothing that separates the parts of an identity. -/
def Plain (s : String) : Prop := ∀ c ∈ s.toList, isSpace c = false ∧ c ≠ '\x1f'

/-- Checked character by character. -/
theorem plain_of_all {s : String} (all : (s.toList.all fun c => !isSpace c && c != '\x1f') = true) : Plain s := by
  simpa [Plain] using all

theorem dropWhile_plain {l : List Char} (plain : ∀ c ∈ l, isSpace c = false) : l.dropWhile isSpace = l := by
  cases l with
  | nil => rfl
  | cons c rest => simp [plain c List.mem_cons_self]

theorem Plain.trimSpace {s : String} (plain : Plain s) : trimSpace s = s := by
  have front : ∀ c ∈ s.toList, isSpace c = false := fun c hc => (plain c hc).1
  have back : ∀ c ∈ s.toList.reverse, isSpace c = false := fun c hc => front c (List.mem_reverse.1 hc)
  rw [Windylane.trimSpace, dropWhile_plain front, dropWhile_plain back, List.reverse_reverse, String.ofList_toList]

theorem Plain.append {s t : String} (hs : Plain s) (ht : Plain t) : Plain (s ++ t) := by
  intro c hc
  rw [String.toList_append, List.mem_append] at hc
  exact hc.elim (hs c) (ht c)

theorem plain_source (source : MetricSource) : Plain source.text := by
  cases source <;> exact plain_of_all (by decide +kernel)

theorem plain_eventType (type : MetricEventType) : Plain type.text := by
  cases type <;> exact plain_of_all (by decide +kernel)

theorem plain_resourceType (resource : MetricResourceType) : Plain resource.text := by
  cases resource <;> exact plain_of_all (by decide +kernel)

theorem eventType_text_injective {a b : MetricEventType} (same : a.text = b.text) : a = b := by
  have found : ∀ t : MetricEventType,
      (metricSources.flatMap metricEventsBySource).find? (fun t' => t'.text = t.text) = some t := by
    intro t
    cases t <;> decide +kernel
  have there := found a
  rw [same, found b] at there
  exact (Option.some.inj there).symm

theorem plain_uuid (u : UUID) : Plain u.text := UUID.text_chars (by decide) (by decide) u

/-! ### Numbers -/

theorem isDigit_repr {k : Nat} {c : Char} (hc : c ∈ k.repr.toList) : c.isDigit = true := by
  rw [Nat.toList_repr] at hc
  exact Nat.isDigit_of_mem_toDigits (by decide) (by decide) hc

theorem plain_nat (k : Nat) : Plain k.repr := by
  intro c hc
  have digit := isDigit_repr hc
  simp only [Char.isDigit, Bool.and_eq_true, decide_eq_true_eq] at digit
  have low : 48 ≤ c.toNat := by simpa [UInt32.le_iff_toNat_le] using digit.1
  have high : c.toNat ≤ 57 := by simpa [UInt32.le_iff_toNat_le] using digit.2
  refine ⟨?_, ?_⟩
  · simp only [isSpace, List.mem_cons, List.not_mem_nil, or_false, Bool.or_eq_false_iff, decide_eq_false_iff_not,
      Bool.and_eq_false_iff]
    omega
  · rintro rfl
    exact absurd low (by decide)

theorem plain_int (n : Int) : Plain (toString n) := by
  rw [Int.toString_eq_repr, Int.repr_eq_if]
  split
  · exact plain_nat _
  · exact Plain.append (plain_of_all (by decide +kernel)) (plain_nat _)

theorem nat_repr_injective {k k' : Nat} (same : k.repr = k'.repr) : k = k' := by
  have digits := congrArg (fun s => Nat.ofDigitChars 10 s.toList 0) same
  simpa [Nat.toList_repr, Nat.ofDigitChars_ten_toDigits] using digits

theorem int_toString_injective {a b : Int} (same : toString a = toString b) : a = b := by
  have unsigned : ∀ {k k' : Nat}, k.repr ≠ "-" ++ k'.repr := by
    intro k k' same
    have sign : '-' ∈ k.repr.toList := by rw [same]; simp
    exact absurd (isDigit_repr sign) (by decide)
  rw [Int.toString_eq_repr, Int.toString_eq_repr, Int.repr_eq_if, Int.repr_eq_if] at same
  split at same <;> split at same
  · have := nat_repr_injective same
    omega
  · exact (unsigned same).elim
  · exact (unsigned same.symm).elim
  · have := nat_repr_injective (String.append_right_inj _ |>.1 same)
    omega

/-! ### Identities -/

theorem Plain.split {s t : String} {r r' : List Char} (hs : Plain s) (ht : Plain t)
    (same : s.toList ++ '\x1f' :: r = t.toList ++ '\x1f' :: r') : s = t ∧ r = r' := by
  obtain ⟨front, back⟩ := append_cons_inj (fun mem => (hs _ mem).2 rfl) (fun mem => (ht _ mem).2 rfl) same
  exact ⟨String.toList_inj.1 front, back⟩

theorem identity_parts (input : NewMetricEventInput) : input.identity.toList =
    input.organizationID.text.toList ++ '\x1f' :: (input.source.text.toList ++ '\x1f' :: (input.eventType.text.toList ++
      '\x1f' :: (input.resourceType.text.toList ++ '\x1f' :: (input.resourceID.text.toList ++
        '\x1f' :: (trimSpace input.transitionKey).toList)))) := by
  have joined : input.identity = input.organizationID.text ++ "\x1f" ++ input.source.text ++ "\x1f" ++
      input.eventType.text ++ "\x1f" ++ input.resourceType.text ++ "\x1f" ++ trimSpace input.resourceID.text ++ "\x1f" ++
      trimSpace input.transitionKey := rfl
  rw [joined, (plain_uuid _).trimSpace]
  simp [String.toList_append]

/-- An identity names the type of its event, the resource, and the transition up to the spaces around its key. -/
theorem identity_names {a b : NewMetricEventInput} (same : a.identity = b.identity) :
    a.eventType = b.eventType ∧ a.resourceID = b.resourceID ∧ trimSpace a.transitionKey = trimSpace b.transitionKey := by
  have parts := congrArg String.toList same
  rw [identity_parts, identity_parts] at parts
  obtain ⟨-, parts⟩ := (plain_uuid _).split (plain_uuid _) parts
  obtain ⟨-, parts⟩ := (plain_source _).split (plain_source _) parts
  obtain ⟨type, parts⟩ := (plain_eventType _).split (plain_eventType _) parts
  obtain ⟨-, parts⟩ := (plain_resourceType _).split (plain_resourceType _) parts
  obtain ⟨resource, key⟩ := (plain_uuid _).split (plain_uuid _) parts
  exact ⟨eventType_text_injective type, UUID.text_injective resource, String.toList_inj.1 key⟩

/-- The key of an attempt gives its number back. -/
theorem attempt_of_key {m n : Int} {type : MetricEventType}
    (same : trimSpace (toString m ++ ":" ++ type.text) = trimSpace (toString n ++ ":" ++ type.text)) : m = n := by
  have plain : ∀ k : Int, Plain (toString k ++ ":" ++ type.text) := fun k =>
    ((plain_int k).append (plain_of_all (by decide +kernel))).append (plain_eventType type)
  rw [(plain m).trimSpace, (plain n).trimSpace, String.append_assoc, String.append_assoc] at same
  exact int_toString_injective (String.append_left_inj _ |>.1 same)

theorem mark_of_identity {a b : NewMetricEventInput} (ha : a.Keyed) (hb : b.Keyed) (same : a.identity = b.identity) :
    (a.eventType, a.mark) = (b.eventType, b.mark) := by
  obtain ⟨type, resource, key⟩ := identity_names same
  rw [NewMetricEventInput.Keyed] at ha hb
  rw [ha, hb, ← type] at key
  refine Prod.ext type ?_
  simp only [NewMetricEventInput.mark, ← type, ← resource]
  split
  all_goals first
    | rfl
    | (rename_i hType; simp only [hType] at key; rw [attempt_of_key key])

/-! ### Ids -/

/-- The events of the metrics of tasks and deliveries, the latest first; `record` drops what it cannot make an event
    of. -/
def metricEvents (h : Host) (newSHA1 : String → UUID) (trace : List (Event machine)) : List MetricEvent :=
  (observations trace).filterMap fun input => (newMetricEvent h newSHA1 input).toOption

theorem newMetricEvent_id {h : Host} {newSHA1 : String → UUID} {input : NewMetricEventInput} {event : MetricEvent}
    (made : (newMetricEvent h newSHA1 input).toOption = some event) : event.id = newSHA1 input.identity := by
  simp only [newMetricEvent] at made
  cases valid : MetricEvent.validate h _ with
  | error e =>
    rw [valid] at made
    cases made
  | ok _ =>
    rw [valid] at made
    cases made
    rfl

/-- Events with different ids are all inserted. -/
theorem inserted_all {events : List MetricEvent} (ids : (events.map (·.id)).Nodup) :
    events.foldr Metrics.insert [] = events.reverse := by
  induction events with
  | nil => rfl
  | cons event rest ih =>
    obtain ⟨new, ids⟩ := List.nodup_cons.1 ids
    have free : rest.reverse.any (fun r => r.id = event.id) = false := by
      refine List.any_eq_false.2 fun r hr same => new (List.mem_map.2 ⟨r, List.mem_reverse.1 hr, ?_⟩)
      exact of_decide_eq_true same
    rw [List.foldr_cons, ih ids, Metrics.insert, free, List.reverse_cons]
    rfl

section Runs
variable {h : Host} {w : World} {s : State}

/-- Without requeues and manual retries, no two metrics of tasks and deliveries get one id, and `ON CONFLICT` drops
    none. -/
theorem metric_ids_distinct (fresh : w.Fresh) (reach : Reachable h NoReset w s) {newSHA1 : String → UUID}
    (free : ∀ a ∈ observations s.config.trace, ∀ b ∈ observations s.config.trace,
      newSHA1 a.identity = newSHA1 b.identity → a.identity = b.identity) :
    ((metricEvents h newSHA1 s.config.trace).map (·.id)).Nodup ∧
      (metricEvents h newSHA1 s.config.trace).foldr Metrics.insert [] = (metricEvents h newSHA1 s.config.trace).reverse := by
  have inv := notes_invariant fresh reach
  have distinct : ((metricEvents h newSHA1 s.config.trace).map (·.id)).Nodup := by
    refine List.pairwise_map.2 (List.pairwise_filterMap.2 ?_)
    refine (List.pairwise_map.1 inv.once).imp_of_mem fun {a b} ha hb ne event made event' made' same => ?_
    rw [newMetricEvent_id made, newMetricEvent_id made'] at same
    exact ne (mark_of_identity (inv.keyed a ha) (inv.keyed b hb) (free a ha b hb same))
  exact ⟨distinct, inserted_all distinct⟩

end Runs

/-! ### A requeued task -/

/-- The only attempt on a task fails, the task is requeued by hand and claimed again. -/
def requeuedRun : List (Action machine Request) :=
  [.spawn (.createTask sampleTask)] ++ steps 0 0 (idsFrom 100 14) ++
    [.spawn (.dispatch ⟨1⟩ "jobs" "a")] ++ failingSteps 1 (seconds 1) (idsFrom 200 13) ++
    [.spawn (.retryTask ⟨1⟩ ⟨102⟩)] ++ steps 2 (seconds 2) (idsFrom 300 4) ++
    [.spawn (.dispatch ⟨1⟩ "jobs" "b")] ++ steps 3 (seconds 3) (idsFrom 400 5)

/-- Two claims of the task are observed under one identity, seconds apart. -/
theorem requeuedRun_ids : ∃ s a b, (System.init gateWorld).run (body sampleHost) requeuedRun = some s ∧
    (metricLedger.trail s.config.trace).filter (· = .claimed ⟨102⟩ 1) = [.claimed ⟨102⟩ 1, .claimed ⟨102⟩ 1] ∧
    (observations s.config.trace).filter (·.eventType = .taskStarted) = [b, a] ∧
    a.occurredAt = seconds 1 ∧ b.occurredAt = seconds 3 ∧ a.identity = b.identity :=
  ⟨_, _, _, rfl, rfl, rfl, rfl, rfl, rfl⟩

/-- A step that does not call a requeue or a manual retry. -/
def keepsAttempts (s : State) : Action machine Request → Bool
  | .step pid _ =>
    match s.procs[pid]? with
    | some ⟨_, .call (.task (.requeue _ _ _)) _, _⟩ | some ⟨_, .call (.hook (.retryWebhookDelivery _ _ _)) _, _⟩ => false
    | _ => true
  | _ => true

theorem noReset_of_keepsAttempts {s : State} {a : Action machine Request} (ok : keepsAttempts s a = true) :
    NoReset s a := by
  cases a with
  | step pid env =>
    rintro o ⟨request, k, hp⟩ resets
    unfold Resets at resets
    split at resets
    all_goals simp [keepsAttempts, hp] at ok resets
  | _ => trivial

/-- The task fails for good and is left there. -/
def leftRun : List (Action machine Request) :=
  [.spawn (.createTask sampleTask)] ++ steps 0 1 (idsFrom 100 14) ++
    [.spawn (.dispatch ⟨1⟩ "jobs" "a")] ++ failingSteps 1 (seconds 1) (idsFrom 200 13)

/-- As good as a hash for the metrics of `leftRun`, which all have identities of different sizes. -/
def sizeID (text : String) : UUID := ⟨BitVec.ofNat 128 text.utf8ByteSize⟩

theorem leftRun_ids : ∃ s, System.runChecked (body sampleHost) keepsAttempts (System.init gateWorld) leftRun = some s ∧
    (metricEvents sampleHost sizeID s.config.trace).length = 5 ∧
    ((metricEvents sampleHost sizeID s.config.trace).map (·.id)).Nodup ∧
    (metricEvents sampleHost sizeID s.config.trace).foldr Metrics.insert [] =
      (metricEvents sampleHost sizeID s.config.trace).reverse := by
  obtain ⟨s, run, made, ids⟩ : ∃ s,
      System.runChecked (body sampleHost) keepsAttempts (System.init gateWorld) leftRun = some s ∧
      (metricEvents sampleHost sizeID s.config.trace).length = 5 ∧
      (observations s.config.trace).map (fun a => sizeID a.identity) = [⟨128⟩, ⟨114⟩, ⟨116⟩, ⟨126⟩, ⟨110⟩] :=
    ⟨_, rfl, by decide +kernel, by decide +kernel⟩
  have reach : Reachable sampleHost NoReset gateWorld s :=
    System.reach_of_checked (fun _ _ _ ok => noReset_of_keepsAttempts ok) run
  have different : ((observations s.config.trace).map fun a => sizeID a.identity).Nodup := by
    rw [ids]
    decide
  refine ⟨s, run, made, metric_ids_distinct gateWorld_fresh reach fun a ha b hb same => ?_⟩
  rw [List.inj_on_of_nodup_map different ha hb same]

end Windylane
