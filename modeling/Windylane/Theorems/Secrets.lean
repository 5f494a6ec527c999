import Windylane.Lib.History
import Windylane.Theorems.Footprints

/-! The secret of an endpoint. Rotating it and updating the endpoint both read the whole row and write it back, so an
    update that read the row before a rotation brings the old secret back. Where updates write only while no secret
    was stored since they read, a secret stays once it was returned. -/

namespace Windylane

open Conc Script Prog

-- the conditions on texts are not decided here
seal trimSpace

/-- The columns of the secret. -/
def WebhookEndpoint.secret (e : WebhookEndpoint) : String × String := (e.secretHash, e.secretCiphertext)

/-- The request stores a secret of the endpoint. -/
def Request.setsSecret (orgID id : UUID) : Request → Bool
  | .endpoint (.rotateSecret org target) => org = orgID && target = id
  | .endpoint (.updateEndpoint org target input) => input.secret.isSome && org = orgID && target = id
  | _ => false

/-- The endpoint that a call read. -/
def readEndpoint : machine.Exchange → Option WebhookEndpoint
  | ⟨.hook (.getWebhookEndpoint _ _), .ok endpoint⟩ => some endpoint
  | _ => none

/-! ### What the programs write -/

/-- What is known of the answers: an endpoint that is read is the one asked for, and decrypting undoes encrypting. -/
def EndpointAnswer (h : Host) : (o : Op) → machine.Answer o → Prop
  | .hook (.getWebhookEndpoint orgID id), .ok endpoint => endpoint.orgID = orgID ∧ endpoint.id = id
  | .sys (.encrypt secret), .ok (.ok ciphertext) => h.decrypt ciphertext = .ok secret
  | _, _ => True

/-- An endpoint is written by a request that sets its secret, or with the secret that was read. -/
def WritesBack (request : Request) (past : List machine.Exchange) (o : Op) : Prop :=
  ∀ x, o = .hook (.updateWebhookEndpoint x) →
    request.setsSecret x.orgID x.id = true ∨ ∀ e ∈ past.filterMap readEndpoint, x.secret = e.secret

/-- The last call of a rotation that returned stored the secret it returned. -/
def ReturnsSecret (h : Host) (request : Request) (past : List machine.Exchange) (r : Except Err Outcome) : Prop :=
  ∀ orgID id secret, request = .endpoint (.rotateSecret orgID id) → r = .ok (.secret secret) →
    ∃ before x, past = before ++ [⟨.hook (.updateWebhookEndpoint x), .ok ()⟩] ∧ x.orgID = orgID ∧ x.id = id ∧
      x.secretHash = hashWebhookSecret h secret ∧ h.decrypt x.secretCiphertext = .ok secret

theorem WritesBack.other {request : Request} {past : List machine.Exchange} {o : Op}
    (h : ∀ x, o ≠ .hook (.updateWebhookEndpoint x)) : WritesBack request past o := fun x hx => (h x hx).elim

section Programs
variable {h : Host} {P : List machine.Exchange → Op → Prop}

theorem encryptSecret_along (other : ∀ past secret, P past (.sys (.encrypt secret))) (secret : String)
    (past : List machine.Exchange) : (encryptSecret secret).Along (EndpointAnswer h) P
      (fun after r => after.filterMap readEndpoint = past.filterMap readEndpoint ∧
        ∀ ciphertext, r = .ok ciphertext → h.decrypt ciphertext = .ok secret) past := by
  refine Along.perform (other past secret) (fun e _ => ⟨by simp [readEndpoint], fun _ he => by cases he⟩) ?_
  rintro (e | ciphertext) answer
  · exact ⟨by simp [readEndpoint], fun _ he => by cases he⟩
  · refine ⟨by simp [readEndpoint], fun _ he => ?_⟩
    cases he
    exact answer

/-- The fields of an update change neither whose endpoint it is nor its secret. -/
theorem renameEndpoint_keeps {input : UpdateWebhookEndpointInput} {e e' : WebhookEndpoint}
    (renamed : renameEndpoint h input e = some e') : e'.orgID = e.orgID ∧ e'.id = e.id ∧ e'.secret = e.secret := by
  simp only [renameEndpoint, Option.bind_eq_bind] at renamed
  split at renamed
  · simp only [Option.bind_some] at renamed
    repeat' split at renamed
    all_goals cases renamed
    all_goals exact ⟨rfl, rfl, rfl⟩
  · split at renamed
    · simp only [Option.bind_some] at renamed
      repeat' split at renamed
      all_goals cases renamed
      all_goals exact ⟨rfl, rfl, rfl⟩
    · cases renamed

theorem resubscribeEndpoint_keeps {input : UpdateWebhookEndpointInput} {e e' : WebhookEndpoint}
    (changed : resubscribeEndpoint input e = some e') : e'.orgID = e.orgID ∧ e'.id = e.id ∧ e'.secret = e.secret := by
  obtain ⟨name, url, secret, eventTypes, isActive⟩ := input
  cases eventTypes with
  | none =>
    cases isActive <;> cases changed
    all_goals exact ⟨rfl, rfl, rfl⟩
  | some values =>
    obtain ⟨_, -, rfl⟩ := Option.map_eq_some_iff.1 changed
    cases isActive
    all_goals exact ⟨rfl, rfl, rfl⟩

/-- An update without a secret keeps the secret that it read; with one, it sets the secret of the endpoint. -/
theorem resecretEndpoint_along (orgID id : UUID) (input : UpdateWebhookEndpointInput) (e : WebhookEndpoint)
    (past : List machine.Exchange) :
    (resecretEndpoint h input e).Along (EndpointAnswer h) (WritesBack (.endpoint (.updateEndpoint orgID id input)))
      (fun after r => after.filterMap readEndpoint = past.filterMap readEndpoint ∧ ∀ e', r = .ok e' →
        e'.orgID = e.orgID ∧ e'.id = e.id ∧ (input.secret.isSome = true ∨ e'.secret = e.secret)) past := by
  unfold resecretEndpoint
  cases input.secret with
  | none =>
    refine ⟨rfl, fun e' he => ?_⟩
    cases he
    exact ⟨rfl, rfl, Or.inr rfl⟩
  | some secret =>
    dsimp only
    split
    · exact ⟨rfl, fun e' he => by cases he⟩
    · refine Along.bind (encryptSecret_along (fun _ _ => .other fun _ he => by cases he) secret past) ?_ ?_
      · rintro after ciphertext ⟨reads, -⟩
        refine ⟨reads, fun e' he => ?_⟩
        cases he
        exact ⟨rfl, rfl, Or.inl rfl⟩
      · rintro after e ⟨reads, -⟩
        exact ⟨reads, fun _ he => by cases he⟩

theorem updateEndpoint_along (orgID id : UUID) (input : UpdateWebhookEndpointInput) :
    (updateEndpoint h orgID id input).Along (EndpointAnswer h)
      (WritesBack (.endpoint (.updateEndpoint orgID id input))) (fun _ _ => True) [] := by
  unfold updateEndpoint
  split
  · trivial
  · refine Along.perform (.other fun _ he => by cases he) (fun _ _ => trivial) fun e answer => ?_
    cases renamed : renameEndpoint h input e with
    | none => trivial
    | some e₁ =>
      refine Along.bind (resecretEndpoint_along orgID id input e₁ _) ?_ fun _ _ _ => trivial
      rintro past e₂ ⟨reads, kept⟩
      obtain ⟨org₂, id₂, secret₂⟩ := kept e₂ rfl
      cases changed : resubscribeEndpoint input e₂ with
      | none => trivial
      | some e₃ =>
        refine Along.perform (.other fun _ he => by cases he) (fun _ _ => trivial) fun now _ => ?_
        refine Along.perform ?_ (fun _ _ => trivial) fun _ _ => trivial
        intro x hx
        cases hx
        obtain ⟨org₁, id₁, secret₁⟩ := renameEndpoint_keeps renamed
        obtain ⟨org₃, id₃, secret₃⟩ := resubscribeEndpoint_keeps changed
        obtain ⟨org, same⟩ := answer
        rcases secret₂ with sets | secret₂
        · left
          show (input.secret.isSome && decide (orgID = e₃.orgID) && decide (id = e₃.id)) = true
          rw [sets, org₃, org₂, org₁, org, id₃, id₂, id₁, same]
          simp
        · right
          intro e' he'
          rw [List.filterMap_append, reads] at he'
          obtain rfl : e' = e := by simpa [readEndpoint] using he'
          exact secret₃.trans (secret₂.trans secret₁)

theorem rotateSecret_along (orgID id : UUID) : (rotateSecret h orgID id).Along (EndpointAnswer h)
    (WritesBack (.endpoint (.rotateSecret orgID id)))
    (fun past r => ∀ secret, r = .ok secret → ∃ before x, past = before ++ [⟨.hook (.updateWebhookEndpoint x), .ok ()⟩] ∧
      x.orgID = orgID ∧ x.id = id ∧ x.secretHash = hashWebhookSecret h secret ∧
        h.decrypt x.secretCiphertext = .ok secret) [] := by
  refine Along.perform (.other fun _ he => by cases he) (fun _ _ _ he => by cases he) fun e answer => ?_
  obtain ⟨org, same⟩ := answer
  refine Along.bind (R := fun _ _ => True) (p := generateWebhookSecret) ?_ ?_ fun _ _ _ _ he => by cases he
  · refine Along.perform (.other fun _ he => by cases he) (fun _ _ => trivial) ?_
    rintro (e | secret) -
    all_goals trivial
  · intro past secret _
    refine Along.bind (encryptSecret_along (fun _ _ => .other fun _ he => by cases he) secret past) ?_
      fun _ _ _ _ he => by cases he
    rintro after ciphertext ⟨-, decrypts⟩
    refine Along.perform (.other fun _ he => by cases he) (fun _ _ _ he => by cases he) fun now _ => ?_
    refine Along.perform ?_ (fun _ _ _ he => by cases he) fun _ _ => ?_
    · intro x hx
      cases hx
      left
      show (decide (orgID = e.orgID) && decide (id = e.id)) = true
      rw [org, same]
      simp
    · intro returned he
      cases he
      exact ⟨_, _, rfl, org, same, rfl, decrypts _ rfl⟩

end Programs

/-- The calls that are not updates of an endpoint. -/
def Op.leavesSecrets (o : Op) : Prop := ∀ x, o ≠ .hook (.updateWebhookEndpoint x)

/-- Everything but writing endpoints. -/
abbrev Footprint.offEndpoints : Footprint where
  runs := True
  workflows := True
  endpoints := False
  results := True
  sends := True
  deliveries := True
  create := fun _ => True
  deliver := fun _ => True

theorem leavesSecrets_of_within {o : Op} (within : o.within Footprint.offEndpoints) : o.leavesSecrets := by
  rintro x rfl
  exact within

theorem createEndpoint_leaves (h : Host) (input : CreateWebhookEndpointInput) :
    (createEndpoint h input).Calls Op.leavesSecrets := by
  unfold createEndpoint
  refine calls_ite.2 ⟨fun _ => trivial, fun _ => calls_ite.2 ⟨fun _ => trivial, fun _ => ?_⟩⟩
  split
  · trivial
  · refine Calls.bind ((secretOrNew_calls _).mono fun _ => leavesSecrets_of_within) fun secret => ?_
    refine Calls.bind ((encryptSecret_calls secret).mono fun _ => leavesSecrets_of_within) fun ciphertext => ?_
    simp [perform, Op.leavesSecrets]

/-- What every request writes to endpoints, from what it read and was answered. -/
theorem body_along (h : Host) (request : Request) :
    (body h request).Along (EndpointAnswer h) (WritesBack request) (ReturnsSecret h request) [] := by
  have unsecret : (∀ orgID id, request ≠ .endpoint (.rotateSecret orgID id)) →
      ∀ past r, ReturnsSecret h request past r := fun other _ _ orgID id _ he => (other orgID id he).elim
  have leaving : (body h request).Calls Op.leavesSecrets →
      (∀ orgID id, request ≠ .endpoint (.rotateSecret orgID id)) →
      (body h request).Along (EndpointAnswer h) (WritesBack request) (ReturnsSecret h request) [] :=
    fun calls other => calls.along (fun _ _ ho => .other ho) (unsecret other)
  by_cases edits : ∃ edit, request = .endpoint edit
  · obtain ⟨edit, rfl⟩ := edits
    cases edit with
    | createEndpoint input =>
      exact leaving (Calls.bind (createEndpoint_leaves h input) fun _ => trivial) fun _ _ he => by cases he
    | updateEndpoint orgID id input =>
      exact Along.bind (updateEndpoint_along orgID id input) (fun _ _ _ => unsecret (fun _ _ he => by cases he) _ _)
        fun _ _ _ => unsecret (fun _ _ he => by cases he) _ _
    | deleteEndpoint orgID id =>
      refine leaving (Calls.bind ?_ fun _ => trivial) fun _ _ he => by cases he
      simp [deleteEndpoint, perform, Op.leavesSecrets]
    | rotateSecret orgID id =>
      refine Along.bind (rotateSecret_along orgID id) ?_ fun _ _ _ _ _ _ _ he => by cases he
      intro past secret stored org target returned hr ho
      cases hr
      cases ho
      exact stored _ rfl
  · refine leaving ((body_calls h ?_).mono fun _ => leavesSecrets_of_within) fun _ _ he => edits ⟨_, he⟩
    exact {
      runs := fun _ => trivial
      workflows := fun _ _ => trivial
      endpoints := fun edit he => edits ⟨edit, he⟩
      results := fun _ _ _ _ => trivial
      sends := fun _ => trivial
      deliveries := fun _ => trivial
      requested := fun _ _ _ _ _ _ => trivial
      dispatched := fun _ _ _ => trivial
      events := fun _ _ => trivial
      posts := fun _ _ _ _ _ => trivial }

/-! ### The endpoints -/

/-- What a call does to the endpoints. -/
inductive EndpointsMoved (rows : List WebhookEndpoint) : Op → List WebhookEndpoint → Prop
  | same {o : Op} : EndpointsMoved rows o rows
  | created (e : WebhookEndpoint) (fresh : ∀ r ∈ rows, r.id ≠ e.id) :
      EndpointsMoved rows (.hook (.createWebhookEndpoint e)) (rows ++ [{ e with deletedAt := none }])
  | updated (x : WebhookEndpoint) : EndpointsMoved rows (.hook (.updateWebhookEndpoint x))
      (Table.update (Webhooks.present x.orgID x.id) (Webhooks.replaced x) rows)
  | deleted (orgID id : UUID) (now : Time) : EndpointsMoved rows (.hook (.softDeleteWebhookEndpoint orgID id now))
      (Table.update (Webhooks.present orgID id) (Webhooks.removed now) rows)

theorem Op.endpoints_moved (env : Env) (o : Op) (w : World) :
    EndpointsMoved w.hooks.endpoints o (o.exec env w).2.hooks.endpoints := by
  rcases o.exec_world env w with lost | done
  · rw [lost]
    exact .same
  · rw [done]
    cases o with
    | sys o | task o | worker o | broker o | canvas o => exact .same
    | hook o =>
      cases o with
      | createWebhookEndpoint e =>
        simp only [Op.run, HookOp.run, Webhooks.createWebhookEndpoint]
        split
        · exact .same
        · rename_i unused
          split
          · exact .same
          · exact .created e fun r hr same => unused (List.any_eq_true.2 ⟨r, hr, decide_eq_true same⟩)
      | updateWebhookEndpoint x =>
        simp only [Op.run, HookOp.run, Webhooks.updateWebhookEndpoint]
        split
        · exact .same
        · split
          · exact .same
          · exact .updated x
      | softDeleteWebhookEndpoint orgID id now =>
        simp only [Op.run, HookOp.run, Webhooks.softDeleteWebhookEndpoint]
        split
        · exact .same
        · exact .deleted orgID id now
      | createWebhookDelivery d =>
        simp only [Op.run, HookOp.run, Webhooks.createWebhookDelivery]
        repeat' split
        all_goals exact .same
      | updateWebhookDelivery d =>
        simp only [Op.run, HookOp.run, Webhooks.updateWebhookDelivery]
        repeat' split
        all_goals exact .same
      | retryWebhookDelivery orgID id now =>
        simp only [Op.run, HookOp.run, Webhooks.retryWebhookDelivery]
        split
        all_goals exact .same
      | _ => exact .same

/-- The id stays the key of the endpoints. -/
theorem EndpointsMoved.ids {rows rows' : List WebhookEndpoint} {o : Op} (moved : EndpointsMoved rows o rows')
    (ids : (rows.map (·.id)).Nodup) : (rows'.map (·.id)).Nodup := by
  cases moved with
  | same => exact ids
  | created e fresh =>
    rw [List.map_append]
    refine List.Nodup.append ids (List.nodup_singleton _) fun id hid same => ?_
    obtain ⟨r, hr, rfl⟩ := List.mem_map.1 hid
    exact fresh r hr (List.mem_singleton.1 same)
  | updated x =>
    rw [Table.map_update (f := Webhooks.replaced x) _ fun _ => rfl]
    exact ids
  | deleted orgID id now =>
    rw [Table.map_update (f := Webhooks.removed now) _ fun _ => rfl]
    exact ids

/-- The stored secret of the endpoint is `secret`. -/
def SecretIs (orgID id : UUID) (secret : String × String) (rows : List WebhookEndpoint) : Prop :=
  ∃ r ∈ rows, r.orgID = orgID ∧ r.id = id ∧ r.secret = secret

section Stored
variable {orgID id : UUID} {secret : String × String} {rows rows' : List WebhookEndpoint} {o : Op}

/-- A secret stays until another one is written over it. -/
theorem EndpointsMoved.keeps_secret (moved : EndpointsMoved rows o rows')
    (writes : ∀ x, o = .hook (.updateWebhookEndpoint x) → x.orgID = orgID → x.id = id → x.secret = secret)
    (stored : SecretIs orgID id secret rows) : SecretIs orgID id secret rows' := by
  obtain ⟨r, hr, org, same, held⟩ := stored
  cases moved with
  | same => exact ⟨r, hr, org, same, held⟩
  | created e _ => exact ⟨r, List.mem_append_left _ hr, org, same, held⟩
  | updated x =>
    refine ⟨_, Table.mem_update.2 ⟨r, hr, rfl⟩, ?_⟩
    split
    · rename_i here
      simp only [Webhooks.present, Bool.and_eq_true, decide_eq_true_eq] at here
      exact ⟨org, same, writes x rfl (here.1.1.symm.trans org) (here.1.2.symm.trans same)⟩
    · exact ⟨org, same, held⟩
  | deleted org' target now =>
    refine ⟨_, Table.mem_update.2 ⟨r, hr, rfl⟩, ?_⟩
    split
    · exact ⟨org, same, held⟩
    · exact ⟨org, same, held⟩

/-- What is read of the endpoint has the stored secret. -/
theorem SecretIs.read (stored : SecretIs orgID id secret rows) (ids : (rows.map (·.id)).Nodup)
    {e : WebhookEndpoint} (he : e ∈ rows) (target : e.id = id) : e.secret = secret := by
  obtain ⟨r, hr, -, same, held⟩ := stored
  rw [Table.eq_of_key ids he hr (target.trans same.symm)]
  exact held

end Stored

/-! ### Runs -/

/-- The secret of the endpoint as process `pid` read it, unless a process of `sets` wrote the endpoint since. -/
def knownSecret (orgID id : UUID) (sets : Nat → Bool) (pid : Nat) : List (Event machine) → Option (String × String)
  | [] => none
  | ⟨actor, .hook (.getWebhookEndpoint org target), .ok e⟩ :: rest =>
    if actor = pid ∧ org = orgID ∧ target = id then some e.secret else knownSecret orgID id sets pid rest
  | ⟨actor, .hook (.updateWebhookEndpoint x), _⟩ :: rest =>
    if sets actor = true ∧ x.orgID = orgID ∧ x.id = id then none else knownSecret orgID id sets pid rest
  | _ :: rest => knownSecret orgID id sets pid rest

section Known
variable {orgID id : UUID} {sets : Nat → Bool} {pid : Nat} {secret : String × String}

/-- What is known was just read, or was known before and is not written now. -/
theorem knownSecret_cons {e : Event machine} {rest : List (Event machine)}
    (known : knownSecret orgID id sets pid (e :: rest) = some secret) :
    (∃ x, e = ⟨pid, .hook (.getWebhookEndpoint orgID id), .ok x⟩ ∧ x.secret = secret) ∨
    knownSecret orgID id sets pid rest = some secret ∧
      ∀ x, e.op = .hook (.updateWebhookEndpoint x) → sets e.pid = true → x.orgID = orgID → x.id ≠ id := by
  unfold knownSecret at known
  split at known
  · cases ‹_ = _›
  · rename_i he
    cases he
    split at known
    · rename_i mine
      obtain ⟨rfl, rfl, rfl⟩ := mine
      exact Or.inl ⟨_, rfl, Option.some.inj known⟩
    · exact Or.inr ⟨known, fun _ he => by cases he⟩
  · rename_i he
    cases he
    split at known
    · cases known
    · rename_i other
      refine Or.inr ⟨known, fun x he sets org target => other ?_⟩
      cases he
      exact ⟨sets, org, target⟩
  · rename_i plain he
    cases he
    refine Or.inr ⟨known, fun x he => ?_⟩
    obtain ⟨actor, o, answer⟩ := e
    cases he
    exact (plain actor x answer rfl).elim

/-- Who knows the secret read it. -/
theorem knownSecret_read {trace : List (Event machine)} (known : knownSecret orgID id sets pid trace = some secret) :
    ∃ e ∈ (history pid trace).filterMap readEndpoint, e.secret = secret := by
  induction trace with
  | nil => cases known
  | cons e rest ih =>
    rcases knownSecret_cons known with ⟨x, rfl, rfl⟩ | ⟨before, -⟩
    · rw [history_self (by rfl), List.filterMap_append]
      exact ⟨x, List.mem_append_right _ (List.mem_singleton_self x), rfl⟩
    · obtain ⟨x, hx, same⟩ := ih before
      refine ⟨x, ?_, same⟩
      by_cases mine : e.pid = pid
      · rw [history_self mine, List.filterMap_append]
        exact List.mem_append_left _ hx
      · rw [history_other mine]
        exact hx

end Known

section Runs
variable (h : Host) (orgID id : UUID)

/-- Process `pid` serves a request that sets the secret of the endpoint. -/
def setter (s : State) (pid : Nat) : Bool := s.requests[pid]?.any (·.setsSecret orgID id)

/-- Decrypting undoes encrypting. -/
def Deciphers (_ : State) : Action machine Request → Prop
  | .step _ env => ∀ secret ciphertext, env.encrypt secret = .ok ciphertext → h.decrypt ciphertext = .ok secret
  | _ => True

/-- Nobody asks for another secret, and an update without a secret writes the endpoint only while no secret was stored
    since it read the endpoint. -/
structure Isolated (s : State) (a : Action machine Request) : Prop where
  deciphers : Deciphers h s a
  unset : ∀ request, a = .spawn request → request.setsSecret orgID id = false
  current : ∀ pid env x, a = .step pid env → s.Calling pid (.hook (.updateWebhookEndpoint x)) → x.orgID = orgID →
    x.id = id → setter orgID id s pid = false →
    (knownSecret orgID id (setter orgID id s) pid s.config.trace).isSome = true

/-- From the write of the rotation on, its secret is stored, and nobody knows another one. -/
structure Rotating (pid : Nat) (s : State) : Prop where
  ids : (s.config.world.hooks.endpoints.map (·.id)).Nodup
  rotation : setter orgID id s pid = true
  only : ∀ q o, s.Calling q o → setter orgID id s q = true → q = pid
  kept : ∀ before x, history pid s.config.trace = before ++ [⟨.hook (.updateWebhookEndpoint x), .ok ()⟩] →
    x.orgID = orgID → x.id = id → SecretIs orgID id x.secret s.config.world.hooks.endpoints ∧
      ∀ q secret, knownSecret orgID id (setter orgID id s) q s.config.trace = some secret → secret = x.secret

end Runs

section Runs
variable {h : Host} {orgID id : UUID}

/-- An endpoint that is read is a stored row. -/
theorem getWebhookEndpoint_row {store : Webhooks.Store} {e : WebhookEndpoint}
    (found : Webhooks.getWebhookEndpoint orgID id store = .ok e) :
    e ∈ store.endpoints ∧ e.orgID = orgID ∧ e.id = id := by
  unfold Webhooks.getWebhookEndpoint at found
  split at found
  · rename_i row hrow
    cases found
    have here := List.find?_some hrow
    simp only [Bool.and_eq_true, decide_eq_true_eq] at here
    exact ⟨List.mem_of_find?_eq_some hrow, here.1⟩
  · cases found

theorem endpoint_answer {env : Env}
    (deciphers : ∀ secret ciphertext, env.encrypt secret = .ok ciphertext → h.decrypt ciphertext = .ok secret)
    (o : Op) (w : World) : EndpointAnswer h o (o.exec env w).1 := by
  unfold EndpointAnswer
  split
  · rename_i orgID id e answer
    have found : Webhooks.getWebhookEndpoint orgID id w.hooks = .ok e := by
      rw [Op.exec_ok answer] at answer
      exact answer
    exact (getWebhookEndpoint_row found).2
  · rename_i secret ciphertext answer
    rw [Op.exec_sys] at answer
    exact deciphers secret ciphertext (Except.ok.inj answer)
  · trivial

theorem setter_next {s t : State} {a : Action machine Request} (taken : s.next (body h) a = some t)
    (unset : ∀ request, a = .spawn request → request.setsSecret orgID id = false) :
    setter orgID id t = setter orgID id s := by
  unfold setter
  rcases System.next_requests taken with ⟨request, rfl, started⟩ | same
  · rw [started]
    funext pid
    rcases Nat.lt_trichotomy pid s.requests.length with lt | rfl | gt
    · rw [List.getElem?_append_left lt]
    · simp [unset request rfl]
    · rw [List.getElem?_eq_none (by simp; omega), List.getElem?_eq_none (by omega)]
  · rw [same]

theorem setter_at {s : State} {pid : Nat} {p : Process machine Request Outcome} (hp : s.procs[pid]? = some p) :
    setter orgID id s pid = p.request.setsSecret orgID id := by
  rw [setter, System.requests_at hp]
  rfl

/-- Who is about to call after an action called before, or was just started. -/
theorem calling_before {s t : State} {a : Action machine Request} (taken : s.next (body h) a = some t) {pid : Nat}
    {o : Op} (calling : t.Calling pid o) : (∃ o, s.Calling pid o) ∨ pid = s.procs.length := by
  obtain ⟨request, k, hp⟩ := calling
  rcases System.next_cases taken with ⟨_, -, rfl⟩ | ⟨actor, env, request', o', k', -, ha, rfl⟩ | ⟨actor, q, -, ha, rfl⟩
  · rcases lookup_append hp with before | ⟨rfl, -⟩
    · exact Or.inl ⟨o, request, k, before⟩
    · exact Or.inr rfl
  · rcases lookup_set hp with ⟨rfl, -⟩ | ⟨-, before⟩
    · exact Or.inl ⟨o', request', k', ha⟩
    · exact Or.inl ⟨o, request, k, before⟩
  · rcases lookup_set hp with ⟨-, dead⟩ | ⟨-, before⟩
    · have alive := congrArg Process.alive dead
      cases alive
    · exact Or.inl ⟨o, request, k, before⟩

/-- A write that succeeded is stored. -/
theorem updated_secret {env : Env} {x : WebhookEndpoint} {w : World} {answer : Unit}
    (ok : ((Op.hook (.updateWebhookEndpoint x)).exec env w).1 = .ok answer) :
    SecretIs x.orgID x.id x.secret ((Op.hook (.updateWebhookEndpoint x)).exec env w).2.hooks.endpoints := by
  have done := Op.exec_ok ok
  rw [done] at ok ⊢
  simp only [Op.run, HookOp.run, Webhooks.updateWebhookEndpoint] at ok ⊢
  split at ok
  · cases ok
  · rename_i found
    split at ok
    · cases ok
    · rename_i types
      simp only [found, types]
      simp only [Bool.not_eq_true, Bool.not_eq_false', List.any_eq_true] at found
      obtain ⟨r, hr, here⟩ := found
      refine ⟨_, Table.mem_update.2 ⟨r, hr, rfl⟩, ?_⟩
      rw [if_pos here]
      simp only [Webhooks.present, Bool.and_eq_true, decide_eq_true_eq] at here
      exact ⟨here.1.1, here.1.2, rfl⟩

variable {w : World}

theorem rotating_step {s t : State} {a : Action machine Request} {pid : Nat}
    (reach : Reachable h (Deciphers h) w s) (inv : Rotating orgID id pid s) (allowed : Isolated h orgID id s a)
    (taken : s.next (body h) a = some t) : Rotating orgID id pid t := by
  have sets := setter_next taken allowed.unset
  have only : ∀ q o, t.Calling q o → setter orgID id t q = true → q = pid := by
    intro q o calling hq
    rw [sets] at hq
    rcases calling_before taken calling with ⟨o', before⟩ | rfl
    · exact inv.only q o' before hq
    · rw [setter, List.getElem?_eq_none (by simp [System.requests])] at hq
      cases hq
  have rotation : setter orgID id t pid = true := by rw [sets, inv.rotation]
  rcases System.next_cases taken with ⟨request, rfl, rfl⟩ | ⟨actor, env, request, o, k, rfl, ha, rfl⟩ |
      ⟨actor, q, rfl, ha, rfl⟩
  · exact ⟨inv.ids, rotation, only, sets ▸ inv.kept⟩
  · have moved := o.endpoints_moved env s.config.world
    refine ⟨moved.ids inv.ids, rotation, only, ?_⟩
    rw [sets]
    intro before x past org target
    rw [Config.after_trace] at past
    by_cases mine : actor = pid
    · -- the rotation writes: whatever the others read is no longer known
      rw [history_self mine] at past
      obtain ⟨-, last⟩ := List.append_inj' past rfl
      obtain ⟨rfl, answer⟩ := Sigma.mk.inj (List.cons.inj last).1
      have ok := eq_of_heq answer
      refine ⟨org ▸ target ▸ updated_secret ok, fun q secret known => ?_⟩
      rcases knownSecret_cons known with ⟨_, he, -⟩ | ⟨-, unwritten⟩
      · cases congrArg Event.op he
      · exact (unwritten x rfl (mine ▸ inv.rotation) org target).elim
    · rw [history_other mine] at past
      obtain ⟨stored, known⟩ := inv.kept before x past org target
      have along := reach.along (fun _ _ env o _ allowed _ => endpoint_answer allowed o _) (body_along h) ha
      have writes : ∀ x', o = .hook (.updateWebhookEndpoint x') → x'.orgID = orgID → x'.id = id →
          x'.secret = x.secret := by
        rintro x' rfl org' target'
        have unset : setter orgID id s actor = false := by
          by_contra set
          exact mine (inv.only actor _ ⟨request, k, ha⟩ (by simpa using set))
        have current := allowed.current actor env x' rfl ⟨request, k, ha⟩ org' target' unset
        obtain ⟨secret, hs⟩ := Option.isSome_iff_exists.1 current
        obtain ⟨e, he, same⟩ := knownSecret_read hs
        rcases along.1 x' rfl with set | carries
        · rw [setter_at ha, ← org', ← target', set] at unset
          cases unset
        · rw [carries e he, same, known actor secret hs]
      refine ⟨moved.keeps_secret writes stored, fun q secret hq => ?_⟩
      rcases knownSecret_cons hq with ⟨e, he, rfl⟩ | ⟨before, -⟩
      · obtain ⟨-, rfl, answer⟩ := Event.mk.inj he
        have ok := eq_of_heq answer
        have found : Webhooks.getWebhookEndpoint orgID id s.config.world.hooks = .ok e := by
          rw [show machine.exec env _ _ = _ from Op.exec_ok ok] at ok
          exact ok
        obtain ⟨row, -, same⟩ := getWebhookEndpoint_row found
        exact stored.read inv.ids row same
      · exact known q secret before
  · exact ⟨inv.ids, rotation, only, sets ▸ inv.kept⟩

theorem endpoint_ids {allow : State → Action machine Request → Prop} {s : State} (reach : Reachable h allow w s)
    (ids : (w.hooks.endpoints.map (·.id)).Nodup) : (s.config.world.hooks.endpoints.map (·.id)).Nodup := by
  refine reach.invariant (fun s : State => (s.config.world.hooks.endpoints.map (·.id)).Nodup) ids ?_
  intro s t a _ ids _ taken
  rcases System.next_cases taken with ⟨_, -, rfl⟩ | ⟨_, env, _, o, _, -, -, rfl⟩ | ⟨_, _, -, -, rfl⟩
  · exact ids
  · exact (o.endpoints_moved env s.config.world).ids ids
  · exact ids

/-- A rotation is started while no request that sets the secret is served. -/
theorem rotating_start {s₀ s₁ : State} (reach : Reachable h (Deciphers h) w s₀)
    (ids : (w.hooks.endpoints.map (·.id)).Nodup)
    (quiet : ∀ pid o, s₀.Calling pid o → setter orgID id s₀ pid = false)
    (rotate : s₀.next (body h) (.spawn (.endpoint (.rotateSecret orgID id))) = some s₁) :
    Rotating orgID id s₀.procs.length s₁ := by
  have started : s₁ = ⟨s₀.config, s₀.procs ++ [⟨.endpoint (.rotateSecret orgID id), _, true⟩]⟩ :=
    (Option.some.inj rotate).symm
  have requests : s₁.requests = s₀.requests ++ [.endpoint (.rotateSecret orgID id)] := by
    rw [started, System.requests, List.map_append]
    rfl
  have length : s₀.requests.length = s₀.procs.length := List.length_map _
  refine ⟨endpoint_ids (.next (.spawn _) reach trivial rotate) ids, ?_, ?_, ?_⟩
  · rw [setter, requests, ← length, List.getElem?_concat_length]
    simp [Request.setsSecret]
  · intro pid o calling set
    rcases calling_before rotate calling with ⟨o', before⟩ | rfl
    · obtain ⟨request, k, hp⟩ := before
      have lt := (List.getElem?_eq_some_iff.1 hp).1
      rw [setter, requests, List.getElem?_append_left (length ▸ lt)] at set
      have unset := quiet pid o' ⟨request, k, hp⟩
      rw [setter, set] at unset
      cases unset
    · rfl
  · intro before x past
    rw [started, history_eq_nil reach.pid_lt] at past
    cases before <;> cases past

/-- The secret that a rotation returned is the stored one. -/
theorem rotation_kept (ids : (w.hooks.endpoints.map (·.id)).Nodup) {s₀ s₁ s : State}
    (before : Reachable h (Deciphers h) w s₀) (quiet : ∀ pid o, s₀.Calling pid o → setter orgID id s₀ pid = false)
    (rotate : s₀.next (body h) (.spawn (.endpoint (.rotateSecret orgID id))) = some s₁)
    (after : System.Reach (body h) (Isolated h orgID id) s₁ s) {secret : String} {alive : Bool}
    (returned : s.procs[s₀.procs.length]? =
      some ⟨.endpoint (.rotateSecret orgID id), .ret (.secret secret), alive⟩) :
    (∃ r ∈ s.config.world.hooks.endpoints, r.id = id) ∧
      ∀ r ∈ s.config.world.hooks.endpoints, r.id = id → r.orgID = orgID ∧
        r.secretHash = hashWebhookSecret h secret ∧ h.decrypt r.secretCiphertext = .ok secret := by
  have started : Reachable h (Deciphers h) w s₁ := .next (.spawn _) before trivial rotate
  obtain ⟨reach, inv⟩ : Reachable h (Deciphers h) w s ∧ Rotating orgID id s₀.procs.length s := by
    refine after.invariant (fun s => Reachable h (Deciphers h) w s ∧ Rotating orgID id s₀.procs.length s)
      ⟨started, rotating_start before ids quiet rotate⟩ ?_
    rintro s t a - ⟨reach, inv⟩ allowed taken
    exact ⟨.next a reach allowed.deciphers taken, rotating_step reach inv allowed taken⟩
  have along := reach.along (fun _ _ env o _ allowed _ => endpoint_answer allowed o _) (body_along h) returned
  obtain ⟨past, x, last, org, target, hash, decrypts⟩ := along orgID id secret rfl rfl
  obtain ⟨⟨r, hr, rorg, same, stored⟩, -⟩ := inv.kept past x last org target
  refine ⟨⟨r, hr, same⟩, fun r' hr' same' => ?_⟩
  obtain rfl := Table.eq_of_key inv.ids hr' hr (same'.trans same.symm)
  obtain ⟨rhash, rcipher⟩ := Prod.mk.inj stored
  exact ⟨rorg, rhash.trans hash, rcipher ▸ decrypts⟩

end Runs

/-! ### An update beside a rotation -/

/-- An update of the active flag only. -/
def sampleUpdate : UpdateWebhookEndpointInput := ⟨none, none, none, none, some false⟩

def updating : Request := .endpoint (.updateEndpoint ⟨1⟩ ⟨5⟩ sampleUpdate)
def rotating : Request := .endpoint (.rotateSecret ⟨1⟩ ⟨5⟩)

/-- The update reads the endpoint before the rotation, and writes it after. -/
theorem rotation_lost : ∃ s₀ s : State,
    (System.init (sampleWorld [] [])).run (body sampleHost) (.spawn updating :: steps 0 0 [0]) = some s₀ ∧
    s₀.run (body sampleHost) (.spawn rotating :: (steps 1 0 [0, 0, 0, 0, 0] ++ steps 0 0 [0, 0])) = some s ∧
    s.procs[1]? = some ⟨rotating, .ret (.secret "secret"), true⟩ ∧
    s.config.world.hooks.endpoints.map (·.secretHash) = [""] ∧ hashWebhookSecret sampleHost "secret" ≠ "" :=
  ⟨_, _, rfl, rfl, rfl, rfl, by decide⟩

/-- The update reads the endpoint after the rotation wrote it. -/
def laterUpdate : List (Action machine Request) := steps 1 0 [0, 0, 0, 0, 0] ++ steps 0 0 [0, 0, 0]

/-- The condition on a step of the run. -/
def currentWrite (s : State) : Action machine Request → Bool
  | .step pid _ =>
    match s.procs[pid]? with
    | some ⟨_, .call (.hook (.updateWebhookEndpoint _)) _, true⟩ =>
      setter ⟨1⟩ ⟨5⟩ s pid || (knownSecret ⟨1⟩ ⟨5⟩ (setter ⟨1⟩ ⟨5⟩ s) pid s.config.trace).isSome
    | _ => true
  | _ => true

theorem laterUpdate_isolated (s : State) (a : Action machine Request) (ha : a ∈ laterUpdate)
    (current : currentWrite s a = true) : Isolated sampleHost ⟨1⟩ ⟨5⟩ s a := by
  have sample : ∃ pid env, a = .step pid env ∧ env.encrypt = fun secret => .ok secret := by
    rcases List.mem_append.1 ha with ha | ha
    all_goals
      obtain ⟨id, -, rfl⟩ := List.mem_map.1 ha
      exact ⟨_, _, rfl, rfl⟩
  obtain ⟨pid, env, rfl, encrypt⟩ := sample
  refine ⟨fun secret ciphertext ok => ?_, fun _ he => (by cases he), ?_⟩
  · rw [encrypt] at ok
    cases ok
    rfl
  · rintro pid env x he ⟨request, k, hp⟩ - - unset
    cases he
    simp only [currentWrite, hp, unset, Bool.false_or] at current
    exact current

theorem laterUpdate_kept : ∃ s₀ s₁ s : State,
    (System.init (sampleWorld [] [])).run (body sampleHost) [.spawn updating] = some s₀ ∧
    s₀.next (body sampleHost) (.spawn rotating) = some s₁ ∧
    s₁.runChecked (body sampleHost) currentWrite laterUpdate = some s ∧
    s.procs[1]? = some ⟨rotating, .ret (.secret "secret"), true⟩ ∧
    s.config.world.hooks.endpoints.map (·.isActive) = [false] ∧
    ∀ r ∈ s.config.world.hooks.endpoints, r.id = ⟨5⟩ → r.orgID = ⟨1⟩ ∧
      r.secretHash = hashWebhookSecret sampleHost "secret" ∧ sampleHost.decrypt r.secretCiphertext = .ok "secret" := by
  obtain ⟨s₀, s₁, s, start, rotate, run, quiet, returned, updated⟩ : ∃ s₀ s₁ s : State,
      (System.init (sampleWorld [] [])).run (body sampleHost) [.spawn updating] = some s₀ ∧
      s₀.next (body sampleHost) (.spawn rotating) = some s₁ ∧
      s₁.runChecked (body sampleHost) currentWrite laterUpdate = some s ∧ s₀.requests = [updating] ∧
      s.procs[1]? = some ⟨rotating, .ret (.secret "secret"), true⟩ ∧
      s.config.world.hooks.endpoints.map (·.isActive) = [false] := ⟨_, _, _, rfl, rfl, rfl, rfl, rfl, rfl⟩
  have before : Reachable sampleHost (Deciphers sampleHost) (sampleWorld [] []) s₀ :=
    System.reach_of_run (fun a ha s => by
      cases List.mem_singleton.1 ha
      trivial) start
  have length : s₀.procs.length = 1 := by
    rw [← List.length_map (·.request)]
    exact congrArg List.length quiet
  have unset : ∀ pid o, s₀.Calling pid o → setter ⟨1⟩ ⟨5⟩ s₀ pid = false := by
    rintro pid o ⟨request, k, hp⟩
    have lt := (List.getElem?_eq_some_iff.1 hp).1
    obtain rfl : pid = 0 := by omega
    rw [setter, quiet]
    rfl
  have ids : ((sampleWorld [] []).hooks.endpoints.map (·.id)).Nodup := List.nodup_singleton _
  have kept := rotation_kept ids before unset rotate
    (System.reach_of_checked laterUpdate_isolated run) (length ▸ returned)
  exact ⟨s₀, s₁, s, start, rotate, run, returned, updated, kept.2⟩

end Windylane
