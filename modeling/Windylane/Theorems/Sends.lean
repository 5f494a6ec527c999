import Windylane.Theorems.Deliveries

/-! Who owns a delivery, and how often it is sent. A worker sends a delivery at most once for each claim, and each
    claim costs an attempt, so the attempts bound the requests between two manual retries. -/

namespace Windylane

open Conc

/-! ### What a step does to a row -/

/-- `r'` is what a call makes of the row `r`. -/
inductive DeliveryChange (env : Env) (c : Config machine) (o : Op) (r : WebhookDelivery) : WebhookDelivery → Prop
  | same (unclaimed : r.id ∉ claims o (Op.exec env o c.world).1) : DeliveryChange env c o r r
  | claim (now : Time) (limit : Int) (called : o = .hook (.claimDueWebhookDeliveries now limit)) :
      DeliveryChange env c o r (Webhooks.claimed now r)
  | store (d : WebhookDelivery) (called : o = .hook (.updateWebhookDelivery d)) (id : r.id = d.id) :
      DeliveryChange env c o r (Webhooks.stored d r)
  | reopen (orgID : UUID) (now : Time) (called : o = .hook (.retryWebhookDelivery orgID r.id now))
      (open' : r.status = .failed ∨ r.status = .retrying) : DeliveryChange env c o r (Webhooks.reopened now r)

theorem DeliveryChange.id {env : Env} {c : Config machine} {o : Op} {r r' : WebhookDelivery}
    (h : DeliveryChange env c o r r') : r'.id = r.id := by
  cases h <;> rfl

section Step
variable {c : Config machine} {pid : Nat} {o : Op} {env : Env} {r r' : WebhookDelivery}

/-- The rows after a call: each row is kept or changed, and one may be inserted. -/
def DeliveriesMoved (env : Env) (c : Config machine) (o : Op) (rows : List WebhookDelivery) : Prop :=
  ∃ (f : WebhookDelivery → WebhookDelivery) (new : List WebhookDelivery), rows = (deliveries c).map f ++ new ∧
    (∀ r ∈ deliveries c, DeliveryChange env c o r (f r)) ∧
    ∀ d ∈ new, o = .hook (.createWebhookDelivery d) ∧ d.id ∉ (deliveries c).map (·.id)

theorem HooksInv.moves {reliable : Prop} (h : HooksInv reliable c) (pid : Nat) (env : Env) (o : Op) :
    DeliveriesMoved env c o (deliveries (c.after pid env o)) := by
  show DeliveriesMoved env c o (Op.exec env o c.world).2.hooks.deliveries
  let deliveriesOf : World → List WebhookDelivery := fun w => w.hooks.deliveries
  have stay : (Op.exec env o c.world).2.hooks.deliveries = deliveries c → claims o (Op.exec env o c.world).1 = [] →
      DeliveriesMoved env c o (Op.exec env o c.world).2.hooks.deliveries := by
    intro rows none
    refine ⟨fun r => r, [], by rw [rows, List.map_id', List.append_nil], fun r _ => .same ?_, fun d hd => by cases hd⟩
    rw [none]
    exact List.not_mem_nil
  have update : ∀ (p : WebhookDelivery → Bool) (g : WebhookDelivery → WebhookDelivery),
      (Op.exec env o c.world).2.hooks.deliveries = Table.update p g (deliveries c) →
      (∀ r ∈ deliveries c, p r = true → DeliveryChange env c o r (g r)) →
      (∀ r ∈ deliveries c, p r = false → r.id ∉ claims o (Op.exec env o c.world).1) →
      DeliveriesMoved env c o (Op.exec env o c.world).2.hooks.deliveries := by
    intro p g rows changed unclaimed
    refine ⟨fun r => if p r then g r else r, [], by rw [rows, List.append_nil]; rfl, fun r hr => ?_,
      fun d hd => by cases hd⟩
    cases hp : p r with
    | true => simpa [hp] using changed r hr hp
    | false => simpa [hp] using DeliveryChange.same (unclaimed r hr hp)
  cases o with
  | sys o => exact stay (Op.exec_frame deliveriesOf rfl) rfl
  | task o => exact stay (Op.exec_frame deliveriesOf rfl) rfl
  | worker o => exact stay (Op.exec_frame deliveriesOf rfl) rfl
  | broker o => exact stay (Op.exec_frame deliveriesOf rfl) rfl
  | canvas o => exact stay (Op.exec_frame deliveriesOf rfl) rfl
  | hook o =>
    cases o with
    | getWebhookEndpoint | listWebhookEndpoints | listActiveWebhookEndpointsForEvent | getWebhookDelivery
    | listWebhookDeliveries => exact stay (Op.exec_frame deliveriesOf rfl) rfl
    | createWebhookEndpoint | updateWebhookEndpoint | softDeleteWebhookEndpoint =>
      exact stay (Op.exec_frame deliveriesOf (HookOp.run_endpoint env _ rfl)) rfl
    | createWebhookDelivery d =>
      rcases createWebhookDelivery_cases d c.world.hooks with run | ⟨fresh, -, run⟩
      · exact stay (Op.exec_frame deliveriesOf (by simp [deliveriesOf, Op.run, HookOp.run, run])) rfl
      · rcases Op.exec_world env (.hook (.createWebhookDelivery d)) c.world with hw | hw
        · exact stay (by rw [hw]) rfl
        · refine ⟨fun r => r, [d], by simp [hw, Op.run, HookOp.run, run], fun r _ => .same List.not_mem_nil, ?_⟩
          intro d' hd'
          cases List.mem_singleton.1 hd'
          exact ⟨rfl, fresh⟩
    | claimDueWebhookDeliveries now limit =>
      obtain ⟨taken, due, -, run⟩ := claimDueWebhookDeliveries_cases h.ids now limit env.locked
      rcases Op.exec_cases env (.hook (.claimDueWebhookDeliveries now limit)) c.world with ⟨e, -, he⟩ | ⟨e, -, he⟩ | he
      · exact stay (by rw [he]) (by rw [he]; rfl)
      · refine update (fun d => d.id ∈ taken.map (·.id)) (Webhooks.claimed now) (by simp [he, Op.run, HookOp.run, run])
          (fun r _ _ => .claim now limit rfl) fun r _ _ => ?_
        rw [he]
        exact List.not_mem_nil
      · refine update (fun d => d.id ∈ taken.map (·.id)) (Webhooks.claimed now) (by simp [he, Op.run, HookOp.run, run])
          (fun r _ _ => .claim now limit rfl) fun r _ untaken => ?_
        rw [he]
        simpa [claims, answered, Op.run, HookOp.run, run, Webhooks.claimed] using untaken
    | updateWebhookDelivery d =>
      rcases updateWebhookDelivery_cases d c.world.hooks with ⟨run, -⟩ | ⟨-, run⟩
      · exact stay (Op.exec_frame deliveriesOf (by simp [deliveriesOf, Op.run, HookOp.run, run])) rfl
      · rcases Op.exec_world env (.hook (.updateWebhookDelivery d)) c.world with hw | hw
        · exact stay (by rw [hw]) rfl
        · refine update _ _ (by simp only [hw, Op.run, HookOp.run, run]; rfl) (fun r _ hp => ?_)
            fun _ _ _ => List.not_mem_nil
          simp only [Bool.and_eq_true, decide_eq_true_eq] at hp
          exact .store d rfl hp.2
    | retryWebhookDelivery orgID id now =>
      obtain ⟨p, hp, run⟩ := retryWebhookDelivery_cases orgID id now c.world.hooks
      rcases Op.exec_world env (.hook (.retryWebhookDelivery orgID id now)) c.world with hw | hw
      · exact stay (by rw [hw]) rfl
      · refine update p _ (by simp only [hw, Op.run, HookOp.run, run]; rfl) (fun r _ hpr => ?_)
          fun _ _ _ => List.not_mem_nil
        obtain ⟨rfl, opened⟩ := hp r hpr
        exact .reopen orgID now rfl opened

/-- Every row was there before the step or is inserted by it. -/
theorem HooksInv.origin {reliable : Prop} (h : HooksInv reliable c) (hr' : r' ∈ deliveries (c.after pid env o)) :
    (∃ r ∈ deliveries c, DeliveryChange env c o r r') ∨
      (o = .hook (.createWebhookDelivery r') ∧ r'.id ∉ (deliveries c).map (·.id)) := by
  obtain ⟨f, new, rows, changed, inserted⟩ := h.moves pid env o
  rcases List.mem_append.1 (rows ▸ hr') with moved | hr
  · obtain ⟨r, hr, rfl⟩ := List.mem_map.1 moved
    exact Or.inl ⟨r, hr, changed r hr⟩
  · exact Or.inr (inserted r' hr)

/-- No row is removed. -/
theorem HooksInv.id_kept {reliable : Prop} (h : HooksInv reliable c) (pid : Nat) (env : Env) (o : Op)
    (hr : r ∈ deliveries c) : r.id ∈ (deliveries (c.after pid env o)).map (·.id) := by
  obtain ⟨f, new, rows, changed, -⟩ := h.moves pid env o
  rw [rows]
  exact List.mem_map.2 ⟨f r, List.mem_append_left _ (List.mem_map_of_mem hr), (changed r hr).id⟩

/-- A call that does not send, claim or finish a delivery keeps its holder. -/
theorem holder_cons {e : Event machine} {id : UUID} (hc : id ∉ claims e.op e.answer) (hf : finishes e.op ≠ some id)
    (past : List (Event machine)) : holder (e :: past) id = holder past id := by
  simp [holder, hc, hf]

/-- What a holder after the call was before it. -/
theorem holder_before {e : Event machine} {past : List (Event machine)} {id : UUID} {pid : Nat}
    (hc : id ∉ claims e.op e.answer) (held : holder (e :: past) id = some pid) :
    finishes e.op ≠ some id ∧ holder past id = some pid := by
  simp only [holder, hc, ↓reduceIte] at held
  split at held
  · cases held
  · exact ⟨‹_›, held⟩

end Step

/-! ### Ownership -/

/-- Worker `pid` claimed the delivery, and did not try to store its result since. -/
def holds (pid : Nat) : List (Event machine) → UUID → Prop
  | [], _ => False
  | e :: past, id =>
    e.pid = pid ∧ id ∈ claims e.op e.answer ∨ ¬ (e.pid = pid ∧ finishes e.op = some id) ∧ holds pid past id

section Runs
variable {h : Host} {allow : State → Action machine Request → Prop} {w : World} {s t : State} {id : UUID}

theorem delivery_inv (fresh : w.Fresh) (reach : Reachable h allow w s) : HooksInv False s.config :=
  (deliveries_run False fresh (fun R => R.elim) reach).1

/-- Whatever a step keeps within the rules holds in every state. -/
theorem deliveries_invariant {I : Config machine → Prop} (fresh : w.Fresh) (start : Reachable h anything w s)
    (init : I s.config)
    (step : ∀ c pid o env, HooksInv False c → (deliveryRules False).may pid c o → I c →
      (∀ u, u.config = c → u.Calling pid o → allow u (.step pid env) → I (c.after pid env o)))
    (reach : System.Reach (body h) allow s t) : I t.config := by
  induction reach with
  | refl => exact init
  | next a prior allowed taken ih =>
    rcases System.next_cases taken with ⟨_, -, rfl⟩ | ⟨pid, env, request, o, k, rfl, hp, rfl⟩ | ⟨_, _, -, -, rfl⟩
    · exact ih
    · have before : Reachable h anything w _ := start.trans (prior.mono fun _ _ _ => trivial)
      have calling : System.Calling _ pid o := ⟨request, k, hp⟩
      exact step _ pid o env (delivery_inv fresh before) (deliveries_may fresh before calling env) ih _ rfl calling allowed
    · exact ih

/-- The worker that holds a delivery is its holder. -/
theorem holder_of_holds (fresh : w.Fresh) (reach : Reachable h anything w s) {pid : Nat}
    (held : holds pid s.config.trace id) : holder s.config.trace id = some pid := by
  revert pid
  refine deliveries_invariant (I := fun c => ∀ {pid}, holds pid c.trace id → holder c.trace id = some pid) fresh .refl
    (fun held => held.elim) ?_ reach
  rintro c actor o env inv may ih - - - - pid (⟨rfl, claimed⟩ | ⟨unfinished, held⟩)
  · simp only [Config.after_trace, holder, claimed, ↓reduceIte]
  · have mine := ih held
    refine (holder_cons (inv.unclaimed mine env o) (fun hf => unfinished ⟨?_, hf⟩) c.trace).trans mine
    -- only the holder stores a result
    obtain ⟨d, rfl, rfl⟩ := finishes_eq_some hf
    exact Option.some.inj ((show Finishes actor c d from may).held.symm.trans mine)

/-! ### Requests -/

/-- How often the delivery was sent. -/
def sendings (id : UUID) (trace : List (Event machine)) : Nat := trace.countP fun e => sends e.op = some id

theorem sendings_cons (e : Event machine) (past : List (Event machine)) :
    sendings id (e :: past) = sendings id past + if sends e.op = some id then 1 else 0 := by
  simp [sendings, List.countP_cons]

/-- A delivery that is held was attempted. -/
theorem held_attempted (fresh : w.Fresh) (reach : Reachable h anything w s) :
    ∀ r ∈ deliveries s.config, ∀ pid, holder s.config.trace r.id = some pid → 0 < r.attemptCount := by
  refine deliveries_invariant (I := fun c => ∀ r ∈ deliveries c, ∀ pid, holder c.trace r.id = some pid →
    0 < r.attemptCount) fresh .refl (fun _ _ _ held => by cases held) ?_ reach
  intro c actor o env inv may ih _ _ _ _ r' hr' pid held
  rcases inv.origin hr' with ⟨r, hr, change⟩ | ⟨rfl, new⟩
  · have attempts := (Webhooks.attemptsOK_iff.1 (inv.attempts r hr)).1
    cases change with
    | same unclaimed => exact ih _ hr pid (holder_before unclaimed held).2
    | claim now limit called => exact Int.lt_add_one_of_le attempts
    | store d called hid =>
      subst called
      exact ((holder_before List.not_mem_nil held).1 (congrArg some hid.symm)).elim
    | reopen orgID now called opened =>
      subst called
      obtain ⟨q, hq, hid, delivering⟩ := inv.held _ _ (holder_before List.not_mem_nil held).2
      rw [Table.eq_of_key inv.ids hq hr hid] at delivering
      rcases opened with hs | hs <;> cases delivering.symm.trans hs
  · obtain ⟨q, hq, hid, -⟩ := inv.held _ _ (holder_before List.not_mem_nil held).2
    exact (new (List.mem_map.2 ⟨q, hq, hid⟩)).elim

/-- No manual retry of the delivery takes effect. -/
def unretried (id : UUID) (s : State) (a : Action machine Request) : Prop :=
  ∀ pid env orgID now, a = .step pid env → s.Calling pid (.hook (.retryWebhookDelivery orgID id now)) →
    deliveries (s.config.after pid env (.hook (.retryWebhookDelivery orgID id now))) = deliveries s.config

/-- What the attempts allow: the delivery was sent at most once for each attempt since it was sent `base` times, and
    less when its holder is about to send it. -/
structure SentWithin (id : UUID) (base : Nat) (c : Config machine) : Prop where
  attempts : ∀ r ∈ deliveries c, r.id = id → (sendings id c.trace : Int) ≤ base + r.attemptCount
  waiting : ∀ r ∈ deliveries c, r.id = id → ∀ pid, holder c.trace id = some pid → ¬ sent c.trace id →
    (sendings id c.trace : Int) < base + r.attemptCount
  absent : id ∉ (deliveries c).map (·.id) → sendings id c.trace = base

/-- The step sends the delivery: its holder did not before. -/
theorem SentWithin.send {base : Nat} {c : Config machine} (within : SentWithin id base c) (inv : HooksInv False c)
    {pid : Nat} {o : Op} {env : Env} (may : (deliveryRules False).may pid c o) (sending : sends o = some id) :
    SentWithin id base (c.after pid env o) := by
  obtain ⟨request, rfl, rfl⟩ := sends_eq_some sending
  have rows : deliveries (c.after pid env (.sys (.send request))) = deliveries c :=
    congrArg (fun w : World => w.hooks.deliveries) (congrArg Prod.snd (Op.exec_sys env (.send request) c.world))
  have count : sendings request.delivery (c.after pid env (.sys (.send request))).trace =
      sendings request.delivery c.trace + 1 := by
    simp only [Config.after_trace, sendings_cons, sends, ↓reduceIte]
  refine ⟨fun r hr hid => ?_, fun _ _ _ _ _ unsent => ?_, fun absent => ?_⟩
  · have := within.waiting r (rows ▸ hr) hid pid may.1 may.2
    rw [count]
    omega
  · exact (unsent ⟨List.not_mem_nil, Or.inl rfl⟩).elim
  · obtain ⟨r, hr, hid, -⟩ := inv.held _ _ may.1
    exact (absent (rows ▸ List.mem_map.2 ⟨r, hr, hid⟩)).elim

theorem SentWithin.other {base : Nat} {c : Config machine} (within : SentWithin id base c) (inv : HooksInv False c)
    {pid : Nat} {o : Op} {env : Env} (may : (deliveryRules False).may pid c o) (silent : sends o ≠ some id)
    (unretried : ∀ orgID now, o = .hook (.retryWebhookDelivery orgID id now) →
      deliveries (c.after pid env o) = deliveries c) : SentWithin id base (c.after pid env o) := by
  have count : sendings id (c.after pid env o).trace = sendings id c.trace := by
    rw [Config.after_trace, sendings_cons, if_neg silent, Nat.add_zero]
  have unsent : id ∉ claims o (Op.exec env o c.world).1 → ¬ sent (c.after pid env o).trace id → ¬ sent c.trace id :=
    fun unclaimed here past => here ⟨unclaimed, Or.inr past⟩
  -- what the step makes of a row, and what is left to send then
  have rows : ∀ r' ∈ deliveries (c.after pid env o), r'.id = id →
      (sendings id c.trace : Int) ≤ base + r'.attemptCount ∧ ∀ q, holder (c.after pid env o).trace id = some q →
        ¬ sent (c.after pid env o).trace id → (sendings id c.trace : Int) < base + r'.attemptCount := by
    intro r' hr' hid'
    rcases inv.origin hr' with ⟨r, hr, change⟩ | ⟨rfl, new⟩
    · have hid : r.id = id := change.id.symm.trans hid'
      have attempts := within.attempts r hr hid
      cases change with
      | same unclaimed =>
        subst hid
        exact ⟨attempts, fun q held here =>
          within.waiting _ hr rfl q (holder_before unclaimed held).2 (unsent unclaimed here)⟩
      | claim now limit called =>
        have more : (Webhooks.claimed now r).attemptCount = r.attemptCount + 1 := rfl
        rw [more]
        exact ⟨by omega, fun _ _ _ => by omega⟩
      | store d called hd =>
        subst called
        have fin : Finishes pid c d := may
        obtain ⟨q, hq, -, hqid, -, attempt, -⟩ := fin.row
        rw [Table.eq_of_key inv.ids hq hr (hqid.trans hd.symm)] at attempt
        refine ⟨attempt ▸ attempts, fun _ held => ?_⟩
        exact ((holder_before List.not_mem_nil held).1 (congrArg some (hd.symm.trans hid))).elim
      | reopen orgID now called opened =>
        rw [unretried orgID now (hid ▸ called)] at hr'
        have same : Webhooks.reopened now r = r := Table.eq_of_key inv.ids hr' hr rfl
        have status : r.status = .pending := (congrArg WebhookDelivery.status same).symm
        rcases opened with hs | hs <;> cases status.symm.trans hs
    · subst hid'
      have created : NewDelivery r' := may
      rw [created.attemptCount, within.absent new]
      refine ⟨by omega, fun _ held => ?_⟩
      obtain ⟨q, hq, hid, -⟩ := inv.held _ _ (holder_before List.not_mem_nil held).2
      exact (new (List.mem_map.2 ⟨q, hq, hid⟩)).elim
  refine ⟨fun r hr hid => count ▸ (rows r hr hid).1, fun r hr hid => count ▸ (rows r hr hid).2, fun absent => ?_⟩
  refine count.trans (within.absent fun present => absent ?_)
  obtain ⟨r, hr, rfl⟩ := List.mem_map.1 present
  exact inv.id_kept pid env o hr

/-- Between two manual retries every request costs an attempt. -/
theorem sendings_within (fresh : w.Fresh) (start : Reachable h anything w s)
    (reach : System.Reach (body h) (unretried id) s t) : SentWithin id (sendings id s.config.trace) t.config := by
  have inv := delivery_inv fresh start
  refine deliveries_invariant fresh start ⟨fun r hr _ => ?_, fun r hr hid pid held _ => ?_, fun _ => rfl⟩ ?_ reach
  · have := (Webhooks.attemptsOK_iff.1 (inv.attempts r hr)).1
    omega
  · have := held_attempted fresh start r hr pid (hid ▸ held)
    omega
  · intro c pid o env inv may within u hu calling allowed
    by_cases sending : sends o = some id
    · exact within.send inv may sending
    · refine within.other inv may sending fun orgID now called => ?_
      subst called hu
      exact allowed pid env orgID now rfl calling

/-! ### Delivery ownership -/

/-- A delivered row is neither changed nor sent again. -/
theorem delivered_settled (fresh : w.Fresh) (start : Reachable h anything w s) {d : WebhookDelivery}
    (hd : d ∈ deliveries s.config) (delivered : d.status = .delivered) (reach : System.Reach (body h) anything s t) :
    d ∈ deliveries t.config ∧ sendings d.id t.config.trace = sendings d.id s.config.trace := by
  refine deliveries_invariant (I := fun c => d ∈ deliveries c ∧ sendings d.id c.trace = sendings d.id s.config.trace)
    fresh start ⟨hd, rfl⟩ ?_ reach
  rintro c pid o env inv may ⟨hd, count⟩ - - - -
  refine ⟨inv.delivered_kept may env hd delivered, ?_⟩
  rw [Config.after_trace, sendings_cons, if_neg, Nat.add_zero, count]
  -- the holder of a delivery finds it delivering
  intro sending
  obtain ⟨request, rfl, hid⟩ := sends_eq_some sending
  obtain ⟨r, hr, hrid, delivering⟩ := inv.held _ _ may.1
  rw [Table.eq_of_key inv.ids hr hd (hrid.trans hid)] at delivering
  cases delivering.symm.trans delivered

/-- What the rows, the workers and the rest of the run keep to. -/
structure DeliveriesOwned (h : Host) (s : State) : Prop where
  attempts : ∀ d ∈ deliveries s.config, d.attemptCount ≤ d.maxAttempts
  /-- While no manual retry takes effect, the attempts bound the requests. -/
  requests : ∀ id t, System.Reach (body h) (unretried id) s t → ∀ d ∈ deliveries t.config, d.id = id →
    (sendings id t.config.trace : Int) ≤ sendings id s.config.trace + d.maxAttempts
  holder : ∀ id p q, holds p s.config.trace id → holds q s.config.trace id → p = q
  /-- A row that is held changes only when its holder stores the result. -/
  held : ∀ d ∈ deliveries s.config, ∀ pid, holds pid s.config.trace d.id → ∀ a t, s.next (body h) a = some t →
    d ∈ deliveries t.config ∨
      ∃ env result, a = .step pid env ∧ s.Calling pid (.hook (.updateWebhookDelivery result)) ∧ result.id = d.id
  /-- A result is stored by a worker that holds the delivery, over the row as its claim answered it. -/
  result : ∀ pid d, s.Calling pid (.hook (.updateWebhookDelivery d)) → Windylane.holder s.config.trace d.id = some pid ∧
    ∃ r ∈ deliveries s.config, r.id = d.id ∧ claimedRow s.config.trace d.id = some r
  delivered : ∀ d ∈ deliveries s.config, d.status = .delivered → ∀ t, System.Reach (body h) anything s t →
    d ∈ deliveries t.config ∧ sendings d.id t.config.trace = sendings d.id s.config.trace

theorem deliveries_owned (fresh : w.Fresh) (reach : Reachable h anything w s) : DeliveriesOwned h s := by
  have inv := delivery_inv fresh reach
  refine ⟨fun d hd => (Webhooks.attemptsOK_iff.1 (inv.attempts d hd)).2.2, fun id t later d hd hid => ?_,
    fun id p q hp hq => ?_, fun d hd pid held a t taken => ?_, fun pid d calling => ?_,
    fun d hd delivered t later => delivered_settled fresh reach hd delivered later⟩
  · have within := (sendings_within fresh reach later).attempts d hd hid
    have bound := (Webhooks.attemptsOK_iff.1
      ((delivery_inv fresh (reach.trans (later.mono fun _ _ _ => trivial))).attempts d hd)).2.2
    omega
  · exact Option.some.inj ((holder_of_holds fresh reach hp).symm.trans (holder_of_holds fresh reach hq))
  · have mine := holder_of_holds fresh reach held
    obtain ⟨r, hr, hid, delivering⟩ := inv.held _ _ mine
    rw [Table.eq_of_key inv.ids hr hd hid] at delivering
    rcases System.next_cases taken with ⟨_, -, rfl⟩ | ⟨actor, env, request, o, k, rfl, hp, rfl⟩ | ⟨_, _, -, -, rfl⟩
    · exact Or.inl hd
    · have calling : s.Calling actor o := ⟨request, k, hp⟩
      by_cases finish : finishes o = some d.id
      · obtain ⟨result, rfl, hid⟩ := finishes_eq_some finish
        have fin : Finishes actor s.config result := deliveries_may fresh reach calling env
        obtain rfl : actor = pid := Option.some.inj ((hid ▸ fin.held).symm.trans mine)
        exact Or.inr ⟨env, result, rfl, calling, hid⟩
      · exact Or.inl (inv.kept env hd (Or.inl delivering) finish)
    · exact Or.inl hd
  · have fin : Finishes pid s.config d := deliveries_may fresh reach calling (sampleEnv 0 ⟨0⟩)
    obtain ⟨r, hr, claimed, hid, -⟩ := fin.row
    exact ⟨fin.held, r, hr, hid, claimed⟩

/-- The worker of the run sent the delivery and is about to store the result. -/
theorem sentRun_owned : ∃ s, (System.init (sampleWorld [] [])).run (body sampleHost) (claimedRun ++ steps 1 0 [0, 0, 0]) =
    some s ∧ (∃ d, s.Calling 1 (.hook (.updateWebhookDelivery d)) ∧ d.status = .delivered) ∧
      sendings ⟨23⟩ s.config.trace = 1 ∧ DeliveriesOwned sampleHost s := by
  obtain ⟨s, run, calling, count⟩ : ∃ s, (System.init (sampleWorld [] [])).run (body sampleHost)
      (claimedRun ++ steps 1 0 [0, 0, 0]) = some s ∧
      (∃ d, s.Calling 1 (.hook (.updateWebhookDelivery d)) ∧ d.status = .delivered) ∧
      sendings ⟨23⟩ s.config.trace = 1 := ⟨_, rfl, ⟨_, ⟨_, _, rfl⟩, rfl⟩, rfl⟩
  exact ⟨s, run, calling, count, deliveries_owned sampleWorld_fresh (System.reach_of_run (fun _ _ _ => trivial) run)⟩

end Runs
end Windylane
