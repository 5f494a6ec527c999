import Windylane.Store.RedisKeys
import Windylane.Theorems.Keys

/-! The Redis keys are apart. The text of an id has a fixed length, so it ends where the rest begins, whatever the queue is
    called; and no suffix has a colon, so the last colon is where the queue ends. -/

namespace Windylane

/-! ### The parts of a key -/

theorem goString_injective {s t : String} (same : goString s = goString t) : s = t :=
  String.toByteArray_inj.1 (ByteArray.ext (Array.toList_inj.1 same))

theorem goString_length (s : String) : (goString s).length = s.utf8ByteSize := rfl

theorem goString_uuid_length (u : UUID) : (goString u.text).length = 36 := by
  have ascii : ∀ c ∈ u.text.toList, c.toNat ≤ 0x7f := UUID.text_chars (by decide) (by decide) u
  rw [goString_length, ← u.text_length, ← utf8ByteSize_ascii ascii, String.ofList_toList]

/-- What follows the last separator determines what comes before it. -/
theorem split_last {α : Type} {x x' y y' : List α} {separator : α} (hy : separator ∉ y) (hy' : separator ∉ y')
    (same : x ++ separator :: y = x' ++ separator :: y') : x = x' ∧ y = y' := by
  rcases List.append_eq_append_iff.1 same with ⟨between, rfl, rest⟩ | ⟨between, rfl, rest⟩
  · cases between with
    | nil => exact ⟨(List.append_nil _).symm, (List.cons.inj rest).2⟩
    | cons c between =>
      obtain ⟨-, rfl⟩ := List.cons.inj rest
      exact absurd (List.mem_append_right _ List.mem_cons_self) hy
  · cases between with
    | nil => exact ⟨List.append_nil _, (List.cons.inj rest).2.symm⟩
    | cons c between =>
      obtain ⟨-, rfl⟩ := List.cons.inj rest
      exact absurd (List.mem_append_right _ List.mem_cons_self) hy'

/-- The suffix of a kind that has a key for each queue. -/
def KeyKind.suffix : KeyKind → String
  | .pending => "pending"
  | .processing => "processing"
  | .delayed => "delayed"
  | .priorities => "priorities"
  | .sequence => "sequence"
  | .dlq => "dlq"
  | .queueRateLimit | .apiRateLimit => "ratelimit"

theorem KeyKind.suffix_no_colon (kind : KeyKind) : 58 ∉ goString kind.suffix := by
  cases kind <;> decide +kernel

theorem KeyKind.suffix_injective {kind kind' : KeyKind} (perQueue : kind ≠ .apiRateLimit)
    (perQueue' : kind' ≠ .apiRateLimit) (same : kind.suffix = kind'.suffix) : kind = kind' := by
  revert perQueue perQueue' same
  cases kind <;> cases kind' <;> decide

/-- What comes after the organisation. -/
def KeyKind.tail (kind : KeyKind) (queue : GoString) : GoString :=
  if kind = .apiRateLimit then goString ":api:ratelimit"
  else goString ":queue:" ++ (queue ++ 58 :: goString kind.suffix)

theorem redisKey_parts (kind : KeyKind) (orgID : UUID) (queue : GoString) :
    redisKey kind orgID queue = goString "queueflow:v1:org:" ++ (goString orgID.text ++ kind.tail queue) := by
  have colon : goString ":" = [58] := by rfl
  have org : goString "queueflow:v1:org:" = goString "queueflow:v1:" ++ goString "org:" := by rfl
  have limit : goString ":ratelimit" = 58 :: goString "ratelimit" := by rfl
  have api : goString ":api:ratelimit" = goString ":api" ++ goString ":ratelimit" := by rfl
  cases kind <;>
    simp [redisKey, pendingKey, processingKey, delayedKey, priorityKey, sequenceKey, dlqKey, queueKey, rateLimitKey,
      poolScope, apiScope, KeyKind.tail, KeyKind.suffix, colon, org, limit, api]

/-! ### Keys are apart -/

/-- The byte after the colon tells the limit of the API from everything that a queue has. -/
theorem KeyKind.tail_api_ne {kind : KeyKind} {queue queue' : GoString} (perQueue : kind ≠ .apiRateLimit) :
    kind.tail queue ≠ KeyKind.apiRateLimit.tail queue' := by
  have queueBytes : goString ":queue:" = 58 :: 113 :: goString "ueue:" := by rfl
  have apiBytes : goString ":api:ratelimit" = 58 :: 97 :: goString "pi:ratelimit" := by rfl
  simp [tail, perQueue, queueBytes, apiBytes]

theorem KeyKind.tail_eq {kind kind' : KeyKind} {queue queue' : GoString} (same : kind.tail queue = kind'.tail queue') :
    kind = kind' ∧ (kind ≠ .apiRateLimit → queue = queue') := by
  by_cases api : kind = .apiRateLimit
  · by_cases api' : kind' = .apiRateLimit
    · exact ⟨api.trans api'.symm, fun perQueue => absurd api perQueue⟩
    · subst api
      exact absurd same.symm (tail_api_ne api')
  · by_cases api' : kind' = .apiRateLimit
    · subst api'
      exact absurd same (tail_api_ne api)
    · rw [tail, tail, if_neg api, if_neg api'] at same
      obtain ⟨queues, suffixes⟩ :=
        split_last kind.suffix_no_colon kind'.suffix_no_colon (List.append_cancel_left same)
      exact ⟨suffix_injective api api' (goString_injective suffixes), fun _ => queues⟩

/-- Two keys of the program are the same only for the same kind, organisation and queue, whatever bytes are in the names. -/
theorem redisKey_eq_iff (kind kind' : KeyKind) (orgID orgID' : UUID) (queue queue' : GoString) :
    redisKey kind orgID queue = redisKey kind' orgID' queue' ↔
      kind = kind' ∧ orgID = orgID' ∧ (kind ≠ .apiRateLimit → queue = queue') := by
  constructor
  · intro same
    rw [redisKey_parts, redisKey_parts] at same
    have lengths : (goString orgID.text).length = (goString orgID'.text).length := by
      rw [goString_uuid_length, goString_uuid_length]
    obtain ⟨orgs, tails⟩ := List.append_inj (List.append_cancel_left same) lengths
    obtain ⟨kinds, queues⟩ := KeyKind.tail_eq tails
    exact ⟨kinds, UUID.text_injective (goString_injective orgs), queues⟩
  · rintro ⟨rfl, rfl, queues⟩
    by_cases api : kind = .apiRateLimit
    · subst api
      rfl
    · rw [queues api]

end Windylane
