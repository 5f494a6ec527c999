import Windylane.Theorems.Footprints

/-! Webhook deliveries. A worker holds a delivery from the claim that answered it to the update that stores its
    result. `UpdateWebhookDelivery` is not guarded by the row, so everything rests on who calls it: only the
    holder does, a held delivery is `delivering`, and no claim takes a delivery that is `delivering`. -/

namespace Windylane

open Conc Script Prog

/-! ### Holders -/

/-- The deliveries a call claimed for its caller, as they are after it. -/
def answered : (o : Op) → machine.Answer o → List WebhookDelivery
  | .hook (.claimDueWebhookDeliveries _ _), .ok ds => ds
  | _, _ => []

def claims (o : Op) (answer : machine.Answer o) : List UUID := (answered o answer).map (·.id)

/-- The delivery a call stores the result of. -/
def finishes : Op → Option UUID
  | .hook (.updateWebhookDelivery d) => some d.id
  | _ => none

theorem finishes_eq_some {o : Op} {id : UUID} (h : finishes o = some id) :
    ∃ d, o = .hook (.updateWebhookDelivery d) ∧ d.id = id := by
  cases o with
  | hook o =>
    cases o with
    | updateWebhookDelivery d => exact ⟨d, rfl, Option.some.inj h⟩
    | _ => cases h
  | _ => cases h

theorem claims_of_mem {o : Op} {answer : machine.Answer o} {id : UUID} (h : id ∈ claims o answer) :
    ∃ now limit, o = .hook (.claimDueWebhookDeliveries now limit) := by
  cases o with
  | hook o =>
    cases o with
    | claimDueWebhookDeliveries now limit => exact ⟨now, limit, rfl⟩
    | _ => cases h
  | _ => cases h

/-- The worker that claimed a delivery last and did not try to store its result yet. -/
def holder : List (Event machine) → UUID → Option Nat
  | [], _ => none
  | e :: past, id =>
    if id ∈ claims e.op e.answer then some e.pid
    else if finishes e.op = some id then none
    else holder past id

/-- The delivery a call sends. -/
def sends : Op → Option UUID
  | .sys (.send request) => some request.delivery
  | _ => none

theorem sends_eq_some {o : Op} {id : UUID} (h : sends o = some id) :
    ∃ request, o = .sys (.send request) ∧ request.delivery = id := by
  cases o with
  | sys o =>
    cases o with
    | send request => exact ⟨request, rfl, Option.some.inj h⟩
    | _ => cases h
  | _ => cases h

/-- The delivery was sent since it was claimed last. -/
def sent : List (Event machine) → UUID → Prop
  | [], _ => False
  | e :: past, id => id ∉ claims e.op e.answer ∧ (sends e.op = some id ∨ sent past id)

/-- The deliveries of a state. -/
abbrev deliveries (c : Config machine) : List WebhookDelivery := c.world.hooks.deliveries

structure HooksInv (reliable : Prop) (c : Config machine) : Prop where
  ids : ((deliveries c).map (·.id)).Nodup
  attempts : ∀ d ∈ deliveries c, Webhooks.attemptsOK d = true
  due : ∀ d ∈ deliveries c, d.status = .pending ∨ d.status = .retrying → d.attemptCount < d.maxAttempts
  held : ∀ id pid, holder c.trace id = some pid → ∃ d ∈ deliveries c, d.id = id ∧ d.status = .delivering
  /-- Without faults at claims and updates, a delivery that is being delivered has a holder. -/
  owned : reliable → ∀ d ∈ deliveries c, d.status = .delivering → ∃ pid, holder c.trace d.id = some pid

/-- What the latest claim of a delivery answered. -/
def claimedRow : List (Event machine) → UUID → Option WebhookDelivery
  | [], _ => none
  | e :: past, id => ((answered e.op e.answer).find? (·.id = id)).or (claimedRow past id)

/-- `d` is the result of a delivery that `pid` holds, and whose row is still as the claim answered it. -/
structure Finishes (pid : Nat) (c : Config machine) (d : WebhookDelivery) : Prop where
  held : holder c.trace d.id = some pid
  row : ∃ r ∈ deliveries c, claimedRow c.trace d.id = some r ∧ r.id = d.id ∧ r.orgID = d.orgID ∧
    r.attemptCount = d.attemptCount ∧ r.maxAttempts = d.maxAttempts
  result : d.status = .delivered ∨ d.status = .failed ∨ d.status = .retrying ∧ d.attemptCount < d.maxAttempts

/-- No claim is committed without its answer, and no update is lost. -/
def Undisturbed : Op → Env → Prop
  | .hook (.claimDueWebhookDeliveries _ _), env => ∀ e, env.fault ≠ some (.unacked e)
  | .hook (.updateWebhookDelivery _), env => ∀ e, env.fault ≠ some (.lost e)
  | _, _ => True

/-- Deliveries are created new, sent once by their holders, and finished by them. -/
def deliveryRules (reliable : Prop) : Discipline machine where
  inv := HooksInv reliable
  may := fun pid c o =>
    match o with
    | .hook (.createWebhookDelivery d) => NewDelivery d
    | .hook (.updateWebhookDelivery d) => Finishes pid c d
    | .sys (.send request) => holder c.trace request.delivery = some pid ∧ ¬ sent c.trace request.delivery
    | _ => True
  granted := fun _ _ o env => reliable → Undisturbed o env

/-! ### The statements on the table -/

theorem createWebhookDelivery_cases (d : WebhookDelivery) (s : Webhooks.Store) :
    (Webhooks.createWebhookDelivery d s).2 = s ∨
    (d.id ∉ s.deliveries.map (·.id) ∧ Webhooks.attemptsOK d = true ∧
      (Webhooks.createWebhookDelivery d s).2 = { s with deliveries := s.deliveries ++ [d] }) := by
  unfold Webhooks.createWebhookDelivery
  split
  · exact Or.inl rfl
  split
  · exact Or.inl rfl
  split
  · exact Or.inl rfl
  · rename_i hid _ hok
    refine Or.inr ⟨fun hm => hid ?_, by simpa using hok, rfl⟩
    obtain ⟨r, hr, he⟩ := List.mem_map.1 hm
    exact List.any_eq_true.2 ⟨r, hr, by simpa using he⟩

/-- A claim takes rows that are due, and answers them as they are after it. -/
theorem claimDueWebhookDeliveries_cases {s : Webhooks.Store} (ids : (s.deliveries.map (·.id)).Nodup) (now : Time)
    (limit : Int) (locked : List UUID) :
    ∃ taken : List WebhookDelivery, (∀ d ∈ taken, d ∈ s.deliveries ∧ Webhooks.due now locked d = true) ∧
      (taken.map (·.id)).Nodup ∧ Webhooks.claimDueWebhookDeliveries now limit locked s =
        (.ok (taken.map (Webhooks.claimed now)), { s with
          deliveries := Table.update (fun d => d.id ∈ taken.map (·.id)) (Webhooks.claimed now) s.deliveries }) := by
  refine ⟨_, fun d hd => ?_, Table.firstBy_nodup (ids.sublist (List.filter_sublist.map _)), rfl⟩
  simpa using List.mem_filter.1 (Table.mem_of_mem_firstBy hd)

theorem updateWebhookDelivery_cases (d : WebhookDelivery) (s : Webhooks.Store) :
    (Webhooks.updateWebhookDelivery d s).2 = s ∧
      ((∀ r ∈ s.deliveries, r.orgID = d.orgID → r.id ≠ d.id) ∨ Webhooks.attemptsOK d = false) ∨
    Webhooks.attemptsOK d = true ∧ (Webhooks.updateWebhookDelivery d s).2 =
      { s with deliveries := Table.update (fun r => r.orgID = d.orgID && r.id = d.id) (Webhooks.stored d) s.deliveries } := by
  unfold Webhooks.updateWebhookDelivery
  simp only
  split
  · rename_i hnone
    refine Or.inl ⟨rfl, Or.inl fun r hr ho hid => ?_⟩
    simp only [Bool.not_eq_true', List.any_eq_false, Bool.and_eq_true, decide_eq_true_eq] at hnone
    exact hnone r hr ⟨ho, hid⟩
  split
  · rename_i hok
    exact Or.inl ⟨rfl, Or.inr (by simpa using hok)⟩
  · rename_i hok
    exact Or.inr ⟨by simpa using hok, rfl⟩

/-- A manual retry opens failed and retrying rows only. -/
theorem retryWebhookDelivery_cases (orgID id : UUID) (now : Time) (s : Webhooks.Store) :
    ∃ p : WebhookDelivery → Bool, (∀ r, p r = true → r.id = id ∧ (r.status = .failed ∨ r.status = .retrying)) ∧
      (Webhooks.retryWebhookDelivery orgID id now s).2 =
        { s with deliveries := Table.update p (Webhooks.reopened now) s.deliveries } := by
  refine ⟨fun r => r.orgID = orgID && r.id = id && (r.status = .failed || r.status = .retrying), fun r hr => ?_, ?_⟩
  · simp only [Bool.and_eq_true, Bool.or_eq_true, decide_eq_true_eq] at hr
    exact ⟨hr.1.2, hr.2⟩
  · unfold Webhooks.retryWebhookDelivery
    simp only
    split
    · rfl
    · rename_i hnone
      rw [Table.update_of_not fun r hr => by simpa using List.find?_eq_none.1 hnone r hr]

/-! ### The invariant -/

section Inv
variable {reliable : Prop} {c c' : Config machine}

theorem holder_cons_of_other {e : Event machine} (hc : claims e.op e.answer = []) (hf : finishes e.op = none)
    (past : List (Event machine)) (id : UUID) : holder (e :: past) id = holder past id := by
  simp [holder, hc, hf]

theorem HooksInv.same (h : HooksInv reliable c) (hd : deliveries c' = deliveries c)
    (ht : ∀ id, holder c'.trace id = holder c.trace id) : HooksInv reliable c' where
  ids := hd ▸ h.ids
  attempts := hd ▸ h.attempts
  due := hd ▸ h.due
  held := fun id pid hh => hd ▸ h.held id pid (ht id ▸ hh)
  owned := fun R d hm hs => by
    obtain ⟨pid, hp⟩ := h.owned R d (hd ▸ hm) hs
    exact ⟨pid, (ht d.id).trans hp⟩

theorem HooksInv.update {p : WebhookDelivery → Bool} {f : WebhookDelivery → WebhookDelivery} (h : HooksInv reliable c)
    (hd : deliveries c' = Table.update p f (deliveries c)) (hid : ∀ r, (f r).id = r.id)
    (attempts : ∀ r ∈ deliveries c, p r = true → Webhooks.attemptsOK (f r) = true)
    (due : ∀ r ∈ deliveries c, p r = true → (f r).status = .pending ∨ (f r).status = .retrying →
      (f r).attemptCount < (f r).maxAttempts)
    (held : ∀ id pid, holder c'.trace id = some pid → ∃ r ∈ deliveries c, r.id = id ∧
      (if p r then f r else r).status = .delivering)
    (owned : reliable → ∀ r ∈ deliveries c, (if p r then f r else r).status = .delivering →
      ∃ pid, holder c'.trace r.id = some pid) : HooksInv reliable c' where
  ids := by rw [hd, Table.map_update WebhookDelivery.id hid]; exact h.ids
  attempts := by
    intro d hm
    obtain ⟨r, hr, rfl⟩ := Table.mem_update.1 (hd ▸ hm)
    split
    · exact attempts r hr ‹_›
    · exact h.attempts r hr
  due := by
    intro d hm
    obtain ⟨r, hr, rfl⟩ := Table.mem_update.1 (hd ▸ hm)
    split
    · exact due r hr ‹_›
    · exact h.due r hr
  held := by
    intro id pid hh
    obtain ⟨r, hr, rfl, hs⟩ := held id pid hh
    refine ⟨_, hd ▸ Table.mem_update.2 ⟨r, hr, rfl⟩, ?_, hs⟩
    split
    · exact hid r
    · rfl
  owned := by
    intro R d hm hs
    obtain ⟨r, hr, rfl⟩ := Table.mem_update.1 (hd ▸ hm)
    obtain ⟨pid, hp⟩ := owned R r hr hs
    refine ⟨pid, ?_⟩
    split
    · rw [hid]; exact hp
    · exact hp

theorem HooksInv.create (h : HooksInv reliable c) {d : WebhookDelivery} (new : NewDelivery d)
    (hid : d.id ∉ (deliveries c).map (·.id)) (hok : Webhooks.attemptsOK d = true)
    (hd : deliveries c' = deliveries c ++ [d]) (ht : ∀ id, holder c'.trace id = holder c.trace id) :
    HooksInv reliable c' where
  ids := by
    rw [hd, List.map_append, List.nodup_append]
    refine ⟨h.ids, by simp, fun a ha b hb => ?_⟩
    rintro rfl
    rw [List.map_singleton, List.mem_singleton] at hb
    exact hid (hb ▸ ha)
  attempts := by
    intro r hr
    rcases List.mem_append.1 (hd ▸ hr) with hr | hr
    · exact h.attempts r hr
    · rw [List.mem_singleton.1 hr]; exact hok
  due := by
    intro r hr hs
    rcases List.mem_append.1 (hd ▸ hr) with hr | hr
    · exact h.due r hr hs
    · rw [List.mem_singleton.1 hr, new.attemptCount]
      exact (Webhooks.attemptsOK_iff.1 hok).2.1
  held := by
    intro id pid hh
    obtain ⟨r, hr, he⟩ := h.held id pid (ht id ▸ hh)
    exact ⟨r, hd ▸ List.mem_append_left _ hr, he⟩
  owned := by
    intro R r hr hs
    rcases List.mem_append.1 (hd ▸ hr) with hr | hr
    · obtain ⟨pid, hp⟩ := h.owned R r hr hs
      exact ⟨pid, (ht r.id).trans hp⟩
    · rw [List.mem_singleton.1 hr, new.status] at hs
      cases hs

/-- A claim takes no row but those that are due. -/
theorem HooksInv.due_of_taken (h : HooksInv reliable c) {taken : List WebhookDelivery} {now : Time} {locked : List UUID}
    (due : ∀ d ∈ taken, d ∈ deliveries c ∧ Webhooks.due now locked d = true) {r : WebhookDelivery}
    (hr : r ∈ deliveries c) (hid : r.id ∈ taken.map (·.id)) : Webhooks.due now locked r = true := by
  obtain ⟨d, hd, he⟩ := List.mem_map.1 hid
  rw [← Table.eq_of_key h.ids (due d hd).1 hr he]
  exact (due d hd).2

theorem HooksInv.claim (h : HooksInv reliable c) (pid : Nat) (env : Env) (now : Time) (limit : Int)
    (granted : reliable → Undisturbed (.hook (.claimDueWebhookDeliveries now limit)) env) :
    HooksInv reliable (c.after pid env (.hook (.claimDueWebhookDeliveries now limit))) := by
  obtain ⟨taken, due, -, run⟩ := claimDueWebhookDeliveries_cases h.ids now limit env.locked
  have opened : ∀ r ∈ deliveries c, r.id ∈ taken.map (·.id) →
      (r.status = .pending ∨ r.status = .retrying) ∧ r.attemptCount < r.maxAttempts := by
    intro r hr hid
    have := h.due_of_taken due hr hid
    simp only [Webhooks.due, Bool.and_eq_true, Bool.or_eq_true, decide_eq_true_eq] at this
    exact this.1.1
  have attempts : ∀ r ∈ deliveries c, decide (r.id ∈ taken.map (·.id)) = true →
      Webhooks.attemptsOK (Webhooks.claimed now r) = true := by
    intro r hr hid
    have hlt := (opened r hr (by simpa using hid)).2
    obtain ⟨hpos, hmax, -⟩ := Webhooks.attemptsOK_iff.1 (h.attempts r hr)
    exact Webhooks.attemptsOK_iff.2 ⟨Int.add_nonneg hpos (by decide), hmax, Int.add_one_le_of_lt hlt⟩
  have nondue : ∀ r ∈ deliveries c, decide (r.id ∈ taken.map (·.id)) = true →
      (Webhooks.claimed now r).status = .pending ∨ (Webhooks.claimed now r).status = .retrying →
      (Webhooks.claimed now r).attemptCount < (Webhooks.claimed now r).maxAttempts := by
    rintro r - - (hs | hs) <;> cases hs
  -- a delivery that is held is not taken
  have kept : ∀ id q, holder c.trace id = some q → ∃ r ∈ deliveries c, r.id = id ∧ r.id ∉ taken.map (·.id) ∧
      r.status = .delivering := by
    intro id q hq
    obtain ⟨r, hr, hid, hs⟩ := h.held id q hq
    refine ⟨r, hr, hid, fun hm => ?_, hs⟩
    rcases (opened r hr hm).1 with ho | ho <;> rw [hs] at ho <;> cases ho
  rcases Op.exec_cases env (.hook (.claimDueWebhookDeliveries now limit)) c.world with
    ⟨e, -, he⟩ | ⟨e, hf, he⟩ | he
  · refine h.same ?_ fun id => holder_cons_of_other ?_ rfl _ _
    · simp [deliveries, he]
    · simp only [he]; rfl
  · have ht : ∀ id, holder (c.after pid env (.hook (.claimDueWebhookDeliveries now limit))).trace id =
        holder c.trace id := fun id => holder_cons_of_other (by simp only [he]; rfl) rfl _ _
    refine h.update (f := Webhooks.claimed now) (by simp [deliveries, he, Op.run, HookOp.run, run])
      (fun _ => rfl) attempts nondue ?_ ?_
    · intro id q hq
      obtain ⟨r, hr, hid, hm, hs⟩ := kept id q ((ht id).symm.trans hq)
      exact ⟨r, hr, hid, by simpa [hm] using hs⟩
    · exact fun R => (granted R e hf).elim
  · have ht : ∀ id, holder (c.after pid env (.hook (.claimDueWebhookDeliveries now limit))).trace id =
        if id ∈ taken.map (·.id) then some pid else holder c.trace id := by
      intro id
      simp [holder, he, Op.run, HookOp.run, run, claims, answered, finishes, Webhooks.claimed]
    refine h.update (f := Webhooks.claimed now) (by simp [deliveries, he, Op.run, HookOp.run, run])
      (fun _ => rfl) attempts nondue ?_ ?_
    · intro id q hq
      rw [ht] at hq
      split at hq
      · rename_i hm
        obtain ⟨d, hd, rfl⟩ := List.mem_map.1 hm
        exact ⟨d, (due d hd).1, rfl, by simp only [hm, decide_true, ↓reduceIte]; rfl⟩
      · obtain ⟨r, hr, hid, hm, hs⟩ := kept id q hq
        exact ⟨r, hr, hid, by simpa [hm] using hs⟩
    · intro R r hr hs
      rw [ht]
      split
      · exact ⟨pid, rfl⟩
      · rename_i hm
        exact h.owned R r hr (by simpa [hm] using hs)

theorem HooksInv.finish (h : HooksInv reliable c) {pid : Nat} {d : WebhookDelivery} (fin : Finishes pid c d) (env : Env)
    (granted : reliable → Undisturbed (.hook (.updateWebhookDelivery d)) env) :
    HooksInv reliable (c.after pid env (.hook (.updateWebhookDelivery d))) := by
  have ht : ∀ id, holder (c.after pid env (.hook (.updateWebhookDelivery d))).trace id =
      if d.id = id then none else holder c.trace id := by
    intro id
    simp [holder, claims, answered, finishes]
  obtain ⟨row, hrow, -, hid, horg, hcount, hmax⟩ := fin.row
  have hok : Webhooks.attemptsOK d = true := by
    rw [Webhooks.attemptsOK_iff, ← hcount, ← hmax]
    exact Webhooks.attemptsOK_iff.1 (h.attempts row hrow)
  have others : ∀ id q, (if d.id = id then none else holder c.trace id) = some q →
      d.id ≠ id ∧ holder c.trace id = some q := by
    intro id q hq
    split at hq
    · cases hq
    · exact ⟨‹_›, hq⟩
  have held : ∀ id q, holder (c.after pid env (.hook (.updateWebhookDelivery d))).trace id = some q →
      ∃ r ∈ deliveries c, r.id = id ∧ r.id ≠ d.id ∧ r.status = .delivering := by
    intro id q hq
    obtain ⟨hne, hq⟩ := others id q ((ht id).symm.trans hq)
    obtain ⟨r, hr, rfl, hs⟩ := h.held id q hq
    exact ⟨r, hr, rfl, Ne.symm hne, hs⟩
  by_cases lost : ∃ e, env.fault = some (.lost e)
  · obtain ⟨e, hf⟩ := lost
    have hw : (Op.exec env (.hook (.updateWebhookDelivery d)) c.world).2 = c.world := by simp [Op.exec, hf, Op.fallible]
    refine h.update (p := fun _ => false) (f := id) (by simp [deliveries, hw, Table.update_of_not]) (fun _ => rfl)
      (fun _ _ hp => by cases hp) (fun _ _ hp => by cases hp) ?_ fun R => (granted R e hf).elim
    intro id q hq
    obtain ⟨r, hr, hid, -, hs⟩ := held id q hq
    exact ⟨r, hr, hid, hs⟩
  · have hw : (Op.exec env (.hook (.updateWebhookDelivery d)) c.world).2 =
        ((Op.hook (.updateWebhookDelivery d)).run env c.world).2 := by
      rcases Op.exec_cases env (.hook (.updateWebhookDelivery d)) c.world with ⟨e, hf, -⟩ | ⟨e, -, he⟩ | he
      · exact (lost ⟨e, hf⟩).elim
      · rw [he]
      · rw [he]
    rcases updateWebhookDelivery_cases d c.world.hooks with ⟨-, hnone | hbad⟩ | ⟨-, hupd⟩
    · exact (hnone row hrow horg hid).elim
    · rw [hok] at hbad
      cases hbad
    · refine h.update (p := fun r => r.orgID = d.orgID && r.id = d.id) (f := Webhooks.stored d)
        (by simp [deliveries, hw, Op.run, HookOp.run, hupd]) (fun _ => rfl) (fun _ _ _ => hok) ?_ ?_ ?_
      · rintro r - - hs
        rcases fin.result with hd | hd | ⟨-, hlt⟩
        · rcases hs with hs | hs <;> cases hd.symm.trans hs
        · rcases hs with hs | hs <;> cases hd.symm.trans hs
        · exact hlt
      · intro id q hq
        obtain ⟨r, hr, hid, hne, hs⟩ := held id q hq
        exact ⟨r, hr, hid, by simpa [hne] using hs⟩
      · intro R r hr hs
        by_cases hp : (decide (r.orgID = d.orgID) && decide (r.id = d.id)) = true
        · simp only [hp, ↓reduceIte] at hs
          rcases fin.result with hd | hd | ⟨hd, -⟩ <;> cases hd.symm.trans hs
        · simp only [hp, Bool.false_eq_true, ↓reduceIte] at hs
          obtain ⟨q, hq⟩ := h.owned R r hr hs
          refine ⟨q, (ht r.id).trans ?_⟩
          rw [if_neg, hq]
          -- the row with the id is the one of the organisation
          rintro he
          have := Table.eq_of_key h.ids hr hrow (he.symm.trans hid.symm)
          subst this
          simp [horg, hid] at hp

theorem HooksInv.reopen (h : HooksInv reliable c) (pid : Nat) (env : Env) (orgID id : UUID) (now : Time) :
    HooksInv reliable (c.after pid env (.hook (.retryWebhookDelivery orgID id now))) := by
  have ht : ∀ id', holder (c.after pid env (.hook (.retryWebhookDelivery orgID id now))).trace id' =
      holder c.trace id' := fun _ => holder_cons_of_other rfl rfl _ _
  obtain ⟨p, hp, run⟩ := retryWebhookDelivery_cases orgID id now c.world.hooks
  rcases Op.exec_world env (.hook (.retryWebhookDelivery orgID id now)) c.world with hw | hw
  · exact h.same (by simp [deliveries, hw]) ht
  · have untouched : ∀ r : WebhookDelivery, r.status = .delivering → p r = false := by
      intro r hs
      cases hpr : p r with
      | false => rfl
      | true => rcases (hp r hpr).2 with hr | hr <;> cases hs.symm.trans hr
    refine h.update (p := p) (f := Webhooks.reopened now) (by simp [deliveries, hw, Op.run, HookOp.run, run])
      (fun _ => rfl) ?_ ?_ ?_ ?_
    · intro r hr _
      obtain ⟨-, hmax, -⟩ := Webhooks.attemptsOK_iff.1 (h.attempts r hr)
      exact Webhooks.attemptsOK_iff.2 ⟨Int.le_refl _, hmax, Int.le_of_lt hmax⟩
    · exact fun r hr _ _ => (Webhooks.attemptsOK_iff.1 (h.attempts r hr)).2.1
    · intro id' q hq
      obtain ⟨r, hr, hid, hs⟩ := h.held id' q ((ht id').symm.trans hq)
      exact ⟨r, hr, hid, by simpa [untouched r hs] using hs⟩
    · intro R r hr hs
      split at hs
      · cases hs
      · obtain ⟨q, hq⟩ := h.owned R r hr hs
        exact ⟨q, (ht r.id).trans hq⟩

end Inv

/-- The statements that write endpoints. -/
def HookOp.endpoint : HookOp → Bool
  | .createWebhookEndpoint _ | .updateWebhookEndpoint _ | .softDeleteWebhookEndpoint _ _ _ => true
  | _ => false

theorem HookOp.run_endpoint (env : Env) {o : HookOp} (s : Webhooks.Store) (endpoint : o.endpoint = true) :
    (o.run env s).2.deliveries = s.deliveries := by
  cases o with
  | createWebhookEndpoint e =>
    simp only [HookOp.run, Webhooks.createWebhookEndpoint]
    split <;> [rfl; split <;> rfl]
  | updateWebhookEndpoint e =>
    simp only [HookOp.run, Webhooks.updateWebhookEndpoint]
    split <;> [rfl; split <;> rfl]
  | softDeleteWebhookEndpoint orgID id now =>
    simp only [HookOp.run, Webhooks.softDeleteWebhookEndpoint]
    split <;> rfl
  | _ => cases endpoint

theorem deliveryRules_sound (reliable : Prop) : (deliveryRules reliable).Sound := by
  intro pid c o env h may granted
  have same : (Op.exec env o c.world).2.hooks.deliveries = deliveries c →
      claims o (Op.exec env o c.world).1 = [] → finishes o = none → HooksInv reliable (c.after pid env o) :=
    fun hd hc hf => HooksInv.same h hd fun _ => holder_cons_of_other hc hf _ _
  let deliveriesOf : World → List WebhookDelivery := fun w => w.hooks.deliveries
  cases o with
  | sys o => exact same (Op.exec_frame deliveriesOf rfl) rfl rfl
  | task o => exact same (Op.exec_frame deliveriesOf rfl) rfl rfl
  | worker o => exact same (Op.exec_frame deliveriesOf rfl) rfl rfl
  | broker o => exact same (Op.exec_frame deliveriesOf rfl) rfl rfl
  | canvas o => exact same (Op.exec_frame deliveriesOf rfl) rfl rfl
  | hook o =>
    cases o with
    | getWebhookEndpoint | listWebhookEndpoints | listActiveWebhookEndpointsForEvent | getWebhookDelivery
    | listWebhookDeliveries =>
      exact same (Op.exec_frame deliveriesOf rfl) rfl rfl
    | createWebhookEndpoint | updateWebhookEndpoint | softDeleteWebhookEndpoint =>
      exact same (Op.exec_frame deliveriesOf (HookOp.run_endpoint env _ rfl)) rfl rfl
    | createWebhookDelivery d =>
      rcases Op.exec_world env (.hook (.createWebhookDelivery d)) c.world with hw | hw
      · exact same (by rw [hw]) rfl rfl
      · rcases createWebhookDelivery_cases d c.world.hooks with run | ⟨hid, hok, run⟩
        · exact same (by simp [hw, Op.run, HookOp.run, run]) rfl rfl
        · exact HooksInv.create h may hid hok (by simp [deliveries, hw, Op.run, HookOp.run, run]) fun _ =>
            holder_cons_of_other rfl rfl _ _
    | claimDueWebhookDeliveries now limit => exact HooksInv.claim h pid env now limit granted
    | updateWebhookDelivery d => exact HooksInv.finish h may env granted
    | retryWebhookDelivery orgID id now => exact HooksInv.reopen h pid env orgID id now

/-- A delivery that is being delivered or was delivered changes only when its result is stored. -/
theorem HooksInv.kept {reliable : Prop} {c : Config machine} (h : HooksInv reliable c) {pid : Nat} {o : Op} (env : Env)
    {r : WebhookDelivery} (hr : r ∈ deliveries c) (hs : r.status = .delivering ∨ r.status = .delivered)
    (hf : finishes o ≠ some r.id) : r ∈ deliveries (c.after pid env o) := by
  show r ∈ (Op.exec env o c.world).2.hooks.deliveries
  let deliveriesOf : World → List WebhookDelivery := fun w => w.hooks.deliveries
  have same : deliveriesOf (o.run env c.world).2 = deliveriesOf c.world →
      r ∈ (Op.exec env o c.world).2.hooks.deliveries := fun hrun => by
    rw [show (Op.exec env o c.world).2.hooks.deliveries = _ from Op.exec_frame deliveriesOf hrun]
    exact hr
  have update : ∀ (p : WebhookDelivery → Bool) (f : WebhookDelivery → WebhookDelivery),
      deliveriesOf (o.run env c.world).2 = Table.update p f (deliveries c) → p r = false →
      r ∈ (Op.exec env o c.world).2.hooks.deliveries := by
    intro p f hrun hp
    rcases o.exec_world env c.world with hw | hw
    · rw [hw]; exact hr
    · rw [hw, show (o.run env c.world).2.hooks.deliveries = _ from hrun]
      exact Table.mem_update.2 ⟨r, hr, by simp [hp]⟩
  cases o with
  | sys o => exact same rfl
  | task o => exact same rfl
  | worker o => exact same rfl
  | broker o => exact same rfl
  | canvas o => exact same rfl
  | hook o =>
    cases o with
    | getWebhookEndpoint | listWebhookEndpoints | listActiveWebhookEndpointsForEvent | getWebhookDelivery
    | listWebhookDeliveries => exact same rfl
    | createWebhookEndpoint | updateWebhookEndpoint | softDeleteWebhookEndpoint =>
      exact same (HookOp.run_endpoint env _ rfl)
    | createWebhookDelivery d =>
      rcases createWebhookDelivery_cases d c.world.hooks with run | ⟨-, -, run⟩
      · exact same (by simp [deliveriesOf, Op.run, HookOp.run, run])
      · rcases Op.exec_world env (.hook (.createWebhookDelivery d)) c.world with hw | hw
        · rw [hw]; exact hr
        · rw [hw]
          simp only [Op.run, HookOp.run, run]
          exact List.mem_append_left _ hr
    | claimDueWebhookDeliveries now limit =>
      obtain ⟨taken, due, -, run⟩ := claimDueWebhookDeliveries_cases h.ids now limit env.locked
      refine update (fun d => d.id ∈ taken.map (·.id)) (Webhooks.claimed now)
        (by simp [deliveriesOf, Op.run, HookOp.run, run]) (decide_eq_false fun hm => ?_)
      have := h.due_of_taken due hr hm
      simp only [Webhooks.due, Bool.and_eq_true, Bool.or_eq_true, decide_eq_true_eq] at this
      rcases hs with hs | hs <;> simp [hs] at this
    | updateWebhookDelivery d =>
      have hne : ¬ r.id = d.id := fun he => hf (congrArg some he.symm)
      rcases updateWebhookDelivery_cases d c.world.hooks with ⟨run, -⟩ | ⟨-, run⟩
      · exact same (by simp [deliveriesOf, Op.run, HookOp.run, run])
      · exact update _ _ (by simp only [deliveriesOf, Op.run, HookOp.run, run]; rfl) (by simp [hne])
    | retryWebhookDelivery orgID id now =>
      obtain ⟨p, hp, run⟩ := retryWebhookDelivery_cases orgID id now c.world.hooks
      refine update p (Webhooks.reopened now) (by simp [deliveriesOf, Op.run, HookOp.run, run]) ?_
      cases hpr : p r with
      | false => rfl
      | true =>
        rcases (hp r hpr).2 with hx | hx <;> rcases hs with hs | hs <;> cases hs.symm.trans hx

/-- A row that was delivered is not held, so nobody stores a result for it. -/
theorem HooksInv.delivered_kept {reliable : Prop} {c : Config machine} (h : HooksInv reliable c) {pid : Nat} {o : Op}
    (may : (deliveryRules reliable).may pid c o) (env : Env) {r : WebhookDelivery} (hr : r ∈ deliveries c)
    (hs : r.status = .delivered) : r ∈ deliveries (c.after pid env o) := by
  refine h.kept env hr (Or.inr hs) fun hf => ?_
  obtain ⟨d, rfl, hid⟩ := finishes_eq_some hf
  have fin : Finishes pid c d := may
  obtain ⟨q, hq, hqd, hd⟩ := h.held d.id pid fin.held
  rw [Table.eq_of_key h.ids hq hr (hqd.trans hid)] at hd
  cases hs.symm.trans hd

/-- What a claim answers: the deliveries it took, and each is as its row says. -/
theorem HooksInv.claimed {reliable : Prop} {c : Config machine} {ds : List WebhookDelivery} (h : HooksInv reliable c) (actor : Nat) {env : Env} {now : Time} {limit : Int}
    (ok : (Op.exec env (.hook (.claimDueWebhookDeliveries now limit)) c.world).1 = .ok ds) :
    (ds.map (·.id)).Nodup ∧ ∀ d ∈ ds, (∀ q, holder c.trace d.id ≠ some q) ∧
      d ∈ deliveries (c.after actor env (.hook (.claimDueWebhookDeliveries now limit))) := by
  obtain ⟨taken, due, nodup, run⟩ := claimDueWebhookDeliveries_cases h.ids now limit env.locked
  have he := Op.exec_ok ok
  rw [he] at ok
  simp only [Op.run, HookOp.run, run, Except.ok.injEq] at ok
  subst ok
  refine ⟨by simpa [Function.comp_def, Webhooks.claimed] using nodup, fun d hd => ?_⟩
  obtain ⟨r, hr, rfl⟩ := List.mem_map.1 hd
  constructor
  · intro q hq
    obtain ⟨q', hq', hid, hs⟩ := h.held _ q hq
    have := (due r hr).2
    rw [← Table.eq_of_key h.ids hq' (due r hr).1 hid] at this
    simp [Webhooks.due, hs] at this
  · simp only [deliveries, Config.after_world, he, Op.run, HookOp.run, run]
    exact Table.mem_update.2 ⟨r, (due r hr).1, by
      rw [if_pos (decide_eq_true (List.mem_map.2 ⟨r, hr, rfl⟩))]⟩

/-- What is held is not claimed. -/
theorem HooksInv.unclaimed {reliable : Prop} {c : Config machine} (h : HooksInv reliable c) {id : UUID} {pid : Nat}
    (held : holder c.trace id = some pid) (env : Env) (o : Op) : id ∉ claims o (Op.exec env o c.world).1 := by
  intro hm
  obtain ⟨now, limit, rfl⟩ := claims_of_mem hm
  cases ok : (Op.exec env (.hook (.claimDueWebhookDeliveries now limit)) c.world).1 with
  | error e =>
    rw [ok] at hm
    cases hm
  | ok ds =>
    rw [ok] at hm
    obtain ⟨d, hd, rfl⟩ := List.mem_map.1 hm
    exact ((h.claimed pid ok).2 d hd).1 pid held

/-! ### The worker -/

/-- What worker `pid` holds: the deliveries of `ds`, each as its row says, and no other. Those of `waiting` are not
    sent yet. -/
structure Holding (pid : Nat) (ds waiting : List WebhookDelivery) (c : Config machine) : Prop where
  nodup : (ds.map (·.id)).Nodup
  held : ∀ d ∈ ds, holder c.trace d.id = some pid
  only : ∀ id, holder c.trace id = some pid → id ∈ ds.map (·.id)
  rows : ∀ d ∈ ds, d ∈ deliveries c
  claimed : ∀ d ∈ ds, claimedRow c.trace d.id = some d
  among : waiting ⊆ ds
  unsent : ∀ d ∈ waiting, ¬ sent c.trace d.id

section Worker
variable {reliable : Prop} {c c' : Config machine} {pid : Nat} {ds waiting rest : List WebhookDelivery}
  {d : WebhookDelivery}

theorem HooksInv.delivering (h : HooksInv reliable c) (hold : Holding pid ds waiting c) (hd : d ∈ ds) :
    d.status = .delivering := by
  obtain ⟨r, hr, hid, hs⟩ := h.held d.id pid (hold.held d hd)
  rw [Table.eq_of_key h.ids hr (hold.rows d hd) hid] at hs
  exact hs

theorem Holding.narrow (hold : Holding pid ds waiting c) {waiting' : List WebhookDelivery} (sub : waiting' ⊆ waiting) :
    Holding pid ds waiting' c :=
  { hold with
    among := fun _ hd => hold.among (sub hd)
    unsent := fun d hd => hold.unsent d (sub hd) }

theorem claimedRow_cons {e : Event machine} {id : UUID} (hc : id ∉ claims e.op e.answer) (past : List (Event machine)) :
    claimedRow (e :: past) id = claimedRow past id := by
  have none : (answered e.op e.answer).find? (·.id = id) = none :=
    List.find?_eq_none.2 fun d hd he => hc (List.mem_map.2 ⟨d, hd, by simpa using he⟩)
  rw [claimedRow, none, Option.none_or]

/-- What `pid` holds stays, unless it claims more itself, or one of the deliveries is finished or sent. -/
theorem Holding.keep (h : HooksInv reliable c) (hold : Holding pid ds waiting c) {actor : Nat} {o : Op} (env : Env)
    (hc : ∀ id ∈ claims o (Op.exec env o c.world).1, actor ≠ pid) (hf : ∀ d ∈ ds, finishes o ≠ some d.id)
    (hs : ∀ d ∈ waiting, sends o ≠ some d.id) : Holding pid ds waiting (c.after actor env o) where
  nodup := hold.nodup
  held := by
    intro d hd
    simp only [Config.after_trace, holder, h.unclaimed (hold.held d hd), hf d hd, ↓reduceIte]
    exact hold.held d hd
  only := by
    intro id hp
    simp only [Config.after_trace, holder] at hp
    split at hp
    · rename_i hm
      exact (hc id hm (Option.some.inj hp)).elim
    · split at hp
      · cases hp
      · exact hold.only id hp
  rows := fun d hd => h.kept env (hold.rows d hd) (Or.inl (h.delivering hold hd)) (hf d hd)
  claimed := by
    intro d hd
    rw [Config.after_trace, claimedRow_cons (h.unclaimed (hold.held d hd) env o)]
    exact hold.claimed d hd
  among := hold.among
  unsent := by
    rintro d hd ⟨-, here | past⟩
    · exact hs d hd here
    · exact hold.unsent d hd past

/-- Nobody else claims, sends or finishes what `pid` holds. -/
theorem Holding.other (hold : Holding pid ds waiting c) (step : (deliveryRules reliable).Other pid c c') :
    Holding pid ds waiting c' := by
  obtain ⟨actor, o, env, ne, h, may, granted⟩ := step
  have mine : ∀ d ∈ ds, holder c.trace d.id ≠ some actor := fun d hd he =>
    ne (Option.some.inj (he.symm.trans (hold.held d hd)))
  refine hold.keep h env (fun _ _ => ne) (fun d hd hf => ?_) fun d hd hs => ?_
  · obtain ⟨d', rfl, hid⟩ := finishes_eq_some hf
    exact mine d hd (hid ▸ (show Finishes actor c d' from may).held)
  · obtain ⟨request, rfl, hid⟩ := sends_eq_some hs
    exact mine d (hold.among hd) (hid ▸ may.1)

theorem fits_unclaiming {request : Request} (other : request ≠ .processDue) : request.Fits Footprint.unclaiming where
  runs := fun _ => trivial
  workflows := fun _ _ => trivial
  endpoints := fun _ _ => trivial
  results := fun _ _ _ _ => trivial
  sends := fun due => other due
  deliveries := fun due => other due
  requested := fun _ _ _ _ _ _ => trivial
  dispatched := fun _ _ _ => trivial
  events := fun _ new => ⟨new.status, new.attemptCount⟩
  posts := fun _ _ _ _ new => ⟨new.1, new.2.1⟩

theorem unclaiming_claims {o : Op} (ho : o.unclaiming) (answer : machine.Answer o) :
    claims o answer = [] ∧ finishes o = none ∧ sends o = none := by
  cases o with
  | hook o =>
    cases o with
    | claimDueWebhookDeliveries | updateWebhookDelivery => exact ho.elim
    | _ => exact ⟨rfl, rfl, rfl⟩
  | sys o =>
    cases o with
    | send => exact ho.elim
    | _ => exact ⟨rfl, rfl, rfl⟩
  | _ => exact ⟨rfl, rfl, rfl⟩

theorem unclaiming_may {o : Op} (ho : o.unclaiming) : (deliveryRules reliable).may pid c o := by
  cases o with
  | hook o =>
    cases o with
    | claimDueWebhookDeliveries | updateWebhookDelivery => exact ho.elim
    | createWebhookDelivery d => exact ho
    | _ => trivial
  | sys o =>
    cases o with
    | send => exact ho.elim
    | _ => trivial
  | _ => trivial

theorem Holding.mine (h : HooksInv reliable c) (hold : Holding pid ds waiting c) {o : Op} (ho : o.unclaiming) (env : Env) :
    Holding pid ds waiting (c.after pid env o) := by
  obtain ⟨hc, hf, hs⟩ := unclaiming_claims ho (Op.exec env o c.world).1
  refine hold.keep h env (fun id hm => ?_) (fun _ _ he => ?_) fun _ _ he => ?_
  · rw [hc] at hm
    cases hm
  · cases hf.symm.trans he
  · cases hs.symm.trans he

/-- The delivery at hand is sent. -/
theorem Holding.send (h : HooksInv reliable c) (hold : Holding pid (d :: rest) (d :: rest) c) {request : WebhookHTTPRequest}
    (hid : request.delivery = d.id) (env : Env) :
    Holding pid (d :: rest) rest (c.after pid env (.sys (.send request))) := by
  obtain ⟨hnot, -⟩ := List.nodup_cons.1 hold.nodup
  refine (hold.narrow (List.subset_cons_self d rest)).keep h env (fun _ hm => by cases hm) (fun _ _ he => by cases he) ?_
  intro r hr he
  exact hnot (List.mem_map.2 ⟨r, hr, (Option.some.inj he).symm.trans hid⟩)

/-- Storing the result of a delivery gives it up. -/
theorem Holding.finish (h : HooksInv reliable c) (hold : Holding pid (d :: rest) rest c) {d' : WebhookDelivery}
    (hid : d'.id = d.id) (env : Env) : Holding pid rest rest (c.after pid env (.hook (.updateWebhookDelivery d'))) := by
  obtain ⟨hnot, nodup⟩ := List.nodup_cons.1 hold.nodup
  have ne : ∀ r ∈ rest, d'.id ≠ r.id := fun r hr he => hnot (List.mem_map.2 ⟨r, hr, he.symm.trans hid⟩)
  have ht : ∀ id, holder (c.after pid env (.hook (.updateWebhookDelivery d'))).trace id =
      if d'.id = id then none else holder c.trace id := by
    intro id
    simp [holder, claims, answered, finishes]
  refine ⟨nodup, fun r hr => ?_, fun id hp => ?_, fun r hr => ?_, fun r hr => ?_, fun _ hr => hr, ?_⟩
  · rw [ht, if_neg (ne r hr)]
    exact hold.held r (List.mem_cons_of_mem _ hr)
  · rw [ht] at hp
    split at hp
    · cases hp
    · rename_i hne
      rcases List.mem_cons.1 (hold.only id hp) with he | hm
      · exact (hne (hid.trans he.symm)).elim
      · exact hm
  · have hr' := List.mem_cons_of_mem d hr
    exact h.kept env (hold.rows r hr') (Or.inl (h.delivering hold hr')) fun he => ne r hr (Option.some.inj he)
  · rw [Config.after_trace, claimedRow_cons fun hm => by cases hm]
    exact hold.claimed r (List.mem_cons_of_mem d hr)
  · rintro r hr ⟨-, here | past⟩
    · cases here
    · exact hold.unsent r hr past

/-- A worker that held nothing holds what its claim answers. -/
theorem Holding.claim (h : HooksInv reliable c) (hold : Holding pid [] [] c) {env : Env} {now : Time} {limit : Int}
    (ok : (Op.exec env (.hook (.claimDueWebhookDeliveries now limit)) c.world).1 = .ok ds) :
    Holding pid ds ds (c.after pid env (.hook (.claimDueWebhookDeliveries now limit))) := by
  obtain ⟨nodup, rows⟩ := h.claimed pid ok
  have ht : ∀ id, holder (c.after pid env (.hook (.claimDueWebhookDeliveries now limit))).trace id =
      if id ∈ ds.map (·.id) then some pid else holder c.trace id := by
    intro id
    simp only [Config.after_trace, holder, ok]
    simp [claims, answered, finishes]
  refine ⟨nodup, fun d hd => ?_, fun id hp => ?_, fun d hd => (rows d hd).2, fun d hd => ?_, fun _ hd => hd, ?_⟩
  · rw [ht, if_pos (List.mem_map.2 ⟨d, hd, rfl⟩)]
  · rw [ht] at hp
    split at hp
    · assumption
    · cases hold.only id hp
  · simp only [Config.after_trace, claimedRow, ok, answered]
    rw [Table.find?_key nodup hd, Option.some_or]
  · intro d hd unclaimed
    refine unclaimed.1 ?_
    rw [ok]
    exact List.mem_map.2 ⟨d, hd, rfl⟩

/-- The terms under which a process runs. -/
abbrev deliveryTerms (reliable : Prop) (pid : Nat) : Terms machine := (deliveryRules reliable).terms (fun _ _ => True) pid

theorem wp_unclaiming {α : Type} {p : Script α} (hp : p.Calls Op.unclaiming) (hold : Holding pid ds waiting c) :
    wp (deliveryTerms reliable pid) p (fun _ c' => Holding pid ds waiting c') c :=
  Discipline.wp_calls (fun _ _ step hold => hold.other step)
    (fun _ ho _ env h hold _ => ⟨unclaiming_may ho, trivial, hold.mine h ho env⟩) hold hp

/-- A call that claims and finishes nothing. -/
theorem wp_unclaiming_call {α : Type} {o : Op} {k : machine.Answer o → Script α}
    {Q : Except Err α → Config machine → Prop} (ho : o.unclaiming) (hold : Holding pid ds waiting c)
    (hk : ∀ r c', (deliveryRules reliable).inv c' → Holding pid ds waiting c' → wp (deliveryTerms reliable pid) (k r) Q c') :
    wp (deliveryTerms reliable pid) (.call o k) Q c := by
  refine Discipline.wp_call fun c' hr hi env granted => ⟨unclaiming_may ho, trivial, fun hi' => ?_⟩
  have hold := Discipline.stable (fun _ _ step hold => Holding.other hold step) hr hold
  exact hk _ _ hi' (hold.mine hi ho env)

/-- What happens outside the stores cannot fail. -/
theorem wp_sys {α : Type} {o : SysOp} {f : o.Resp → Script α} {Q : Except Err α → Config machine → Prop}
    (ho : (Op.sys o).unclaiming) (hold : Holding pid ds waiting c)
    (hf : ∀ a c', (deliveryRules reliable).inv c' → Holding pid ds waiting c' → wp (deliveryTerms reliable pid) (f a) Q c') :
    wp (deliveryTerms reliable pid) (Script.sys o >>= f) Q c := by
  refine Discipline.wp_call fun c' hr hi env granted => ⟨unclaiming_may ho, trivial, fun hi' => ?_⟩
  have hold := Discipline.stable (fun _ _ step hold => Holding.other hold step) hr hold
  have := hf (o.run env) _ hi' (hold.mine hi ho env)
  simpa using this

/-- Send the delivery at hand. -/
theorem wp_send {α : Type} (hold : Holding pid (d :: rest) (d :: rest) c) {request : WebhookHTTPRequest}
    {f : Except String WebhookHTTPResponse → Script α} {Q : Except Err α → Config machine → Prop}
    (hid : request.delivery = d.id)
    (hf : ∀ response c', Holding pid (d :: rest) rest c' → wp (deliveryTerms reliable pid) (f response) Q c') :
    wp (deliveryTerms reliable pid) (Script.sys (.send request) >>= f) Q c := by
  refine Discipline.wp_call fun c' hr hi env granted => ?_
  have hold := Discipline.stable (fun _ _ step hold => Holding.other hold step) hr hold
  have hd : d ∈ d :: rest := List.mem_cons_self
  refine ⟨⟨hid ▸ hold.held d hd, hid ▸ hold.unsent d hd⟩, trivial, fun _ => ?_⟩
  have := hf (SysOp.run env (.send request)) _ (hold.send hi hid env)
  simpa using this

/-- The program returned, and `pid` holds `ds`, nothing of it sent. -/
def Returned (pid : Nat) (ds : List WebhookDelivery) {α : Type} (r : Except Err α) (c : Config machine) : Prop :=
  (∃ a, r = .ok a) ∧ Holding pid ds ds c

theorem wp_returned {α : Type} (a : α) (hold : Holding pid ds ds c) :
    wp (deliveryTerms reliable pid) (.ret a) (Returned pid ds) c :=
  fun _ hr _ => ⟨⟨a, rfl⟩, Discipline.stable (fun _ _ step hold => Holding.other hold step) hr hold⟩

/-- Store a result of the delivery at hand. -/
theorem wp_finish {α : Type} (hold : Holding pid (d :: rest) rest c) {d' : WebhookDelivery}
    {k : machine.Answer (.hook (.updateWebhookDelivery d')) → Script α} {Q : Except Err α → Config machine → Prop}
    (hid : d'.id = d.id) (horg : d'.orgID = d.orgID)
    (hcount : d'.attemptCount = d.attemptCount) (hmax : d'.maxAttempts = d.maxAttempts)
    (result : d'.status = .delivered ∨ d'.status = .failed ∨ d'.status = .retrying ∧ d'.attemptCount < d'.maxAttempts)
    (hk : ∀ r c', Holding pid rest rest c' → wp (deliveryTerms reliable pid) (k r) Q c') :
    wp (deliveryTerms reliable pid) (.call (.hook (.updateWebhookDelivery d')) k) Q c := by
  refine Discipline.wp_call fun c' hr hi env granted => ?_
  have hold := Discipline.stable (fun _ _ step hold => Holding.other hold step) hr hold
  have hd : d ∈ d :: rest := List.mem_cons_self
  have fin : Finishes pid c' d' :=
    { held := hid ▸ hold.held d hd
      row := ⟨d, hold.rows d hd, hid ▸ hold.claimed d hd, hid.symm, horg.symm, hcount.symm, hmax.symm⟩
      result }
  exact ⟨fin, trivial, fun _ => hk _ _ (hold.finish hi hid env)⟩

theorem recordFailure_wp (h : Host) (hold : Holding pid (d :: rest) rest c) (response : Option WebhookHTTPResponse)
    (message : String) (now : Time) :
    wp (deliveryTerms reliable pid) (recordFailure h d response message now) (Returned pid rest) c := by
  refine wp_finish hold ?_ ?_ ?_ ?_ ?_ fun r c' hold => ?_
  · unfold failedDelivery; simp only; split <;> rfl
  · unfold failedDelivery; simp only; split <;> rfl
  · unfold failedDelivery; simp only; split <;> rfl
  · unfold failedDelivery; simp only; split <;> rfl
  · unfold failedDelivery
    simp only
    split
    · exact Or.inr (Or.inl rfl)
    · exact Or.inr (Or.inr ⟨rfl, by simp only; omega⟩)
  · cases r with
    | error e => exact wp_returned _ hold
    | ok u =>
      refine wp_sys trivial hold fun _ c' _ hold => ?_
      split
      · exact wp_sys trivial hold fun _ c' _ hold => wp_returned _ hold
      · exact wp_sys trivial hold fun _ c' _ hold => wp_returned _ hold

theorem recordResponse_wp (h : Host) (hold : Holding pid (d :: rest) rest c) (now : Time)
    (response : Except String WebhookHTTPResponse) :
    wp (deliveryTerms reliable pid) (recordResponse h d now response) (Returned pid rest) c := by
  unfold recordResponse
  split
  · exact recordFailure_wp h hold _ _ _
  split
  · exact recordFailure_wp h hold _ _ _
  · refine wp_finish hold rfl rfl rfl rfl (Or.inl rfl) fun r c' hold => ?_
    cases r with
    | error e => exact wp_returned _ hold
    | ok u => exact wp_sys trivial hold fun _ c' _ hold => wp_returned _ hold

theorem processDelivery_wp (h : Host) (hold : Holding pid (d :: rest) (d :: rest) c) (now : Time) :
    wp (deliveryTerms reliable pid) (processDelivery h d now) (Returned pid rest) c := by
  refine wp_unclaiming_call trivial hold fun answer c' _ hold => ?_
  have unsent := hold.narrow (List.subset_cons_self d rest)
  cases answer with
  | error e => exact recordFailure_wp h unsent _ _ _
  | ok endpoint =>
    simp only [Prog.bind]
    split
    · exact recordFailure_wp h unsent _ _ _
    split
    · exact recordFailure_wp h unsent _ _ _
    · exact wp_send hold rfl fun response c' hold => recordResponse_wp h hold now response

theorem processDeliveries_wp (h : Host) (now : Time) (ds : List WebhookDelivery) {c : Config machine}
    (hold : Holding pid ds ds c) :
    wp (deliveryTerms reliable pid) (processDeliveries h now ds) (Returned pid []) c := by
  induction ds generalizing c with
  | nil => exact wp_returned _ hold
  | cons d rest ih =>
    refine wp_sys trivial hold fun _ c' hi hold => ?_
    refine wp_seq Discipline.lawful hi (processDelivery_wp h hold now) (fun _ c' _ ret => ih ret.2) ?_
    rintro e c' - ⟨⟨a, ha⟩, -⟩
    cases ha

theorem processDue_wp (h : Host) (hold : Holding pid [] [] c) :
    wp (deliveryTerms reliable pid) (processDue h) (fun _ c' => Holding pid [] [] c') c := by
  refine wp_sys trivial hold fun now c' _ hold => ?_
  refine Discipline.wp_call fun c'' hr hi env granted => ⟨trivial, trivial, fun hi' => ?_⟩
  have hold := Discipline.stable (fun _ _ step hold => Holding.other hold step) hr hold
  cases ok : (Op.exec env (.hook (.claimDueWebhookDeliveries now h.batchSize)) c''.world).1 with
  | error e =>
    refine wp_unclaiming (p := Prog.fail e) trivial (hold.keep hi env (fun id hm => ?_)
      (fun _ hd => by cases hd) fun _ hd => by cases hd)
    rw [ok] at hm
    cases hm
  | ok ds => exact wp_imp (fun _ _ _ ret => ret.2) (processDeliveries_wp h now ds (hold.claim hi ok))

end Worker

/-! ### Runs -/

theorem holder_mem {trace : List (Event machine)} {id : UUID} {pid : Nat} (h : holder trace id = some pid) :
    ∃ e ∈ trace, e.pid = pid := by
  induction trace with
  | nil => cases h
  | cons e past ih =>
    simp only [holder] at h
    split at h
    · exact ⟨e, List.mem_cons_self, Option.some.inj h⟩
    · split at h
      · cases h
      · obtain ⟨e', he', hp⟩ := ih h
        exact ⟨e', List.mem_cons_of_mem _ he', hp⟩

theorem HooksInv.fresh {reliable : Prop} {w : World} (fresh : w.Fresh) : HooksInv reliable ⟨w, []⟩ := by
  have none : ∀ d ∈ w.hooks.deliveries, False := by simp [fresh.deliveries]
  exact {
    ids := by simp [deliveries, fresh.deliveries]
    attempts := fun d hd => (none d hd).elim
    due := fun d hd => (none d hd).elim
    held := fun _ _ hh => by cases hh
    owned := fun _ d hd => (none d hd).elim }

section Runs
variable {h : Host} {allow : State → Action machine Request → Prop} {w : World} {s : State}

/-- In every run the deliveries are as the invariant says, and every worker holds what its program still has
    to finish. -/
theorem deliveries_run (reliable : Prop) (fresh : w.Fresh)
    (grant : reliable → ∀ s pid env o, allow s (.step pid env) → s.Calling pid o → Undisturbed o env)
    (reach : Reachable h allow w s) :
    HooksInv reliable s.config ∧
      s.Meets (fun _ pid => deliveryTerms reliable pid) (fun _ _ pid c => Holding pid [] [] c) := by
  refine System.Reach.disciplined (deliveryRules_sound reliable) (fun _ _ _ => True) _ (HooksInv.fresh fresh) ?_ ?_ reach
  · intro s pid env o _ allowed calling _ _ _ _ _ R
    exact grant R s pid env o allowed calling
  · intro s request _ _ hi hpid
    have hold : Holding s.procs.length [] [] s.config :=
      { nodup := List.nodup_nil
        held := fun d hd => by cases hd
        only := fun id hp => by
          obtain ⟨e, he, hep⟩ := holder_mem hp
          exact absurd (hpid e he) (hep ▸ Nat.lt_irrefl _)
        rows := fun d hd => by cases hd
        claimed := fun d hd => by cases hd
        among := fun _ hd => hd
        unsent := fun d hd => by cases hd }
    by_cases hreq : request = .processDue
    · subst hreq
      exact wp_seq Discipline.lawful hi (processDue_wp h hold) (fun _ _ _ hold => wp_unclaiming trivial hold)
        fun _ _ _ hold => hold
    · exact wp_unclaiming (body_calls h (fits_unclaiming hreq)) hold

/-- Whatever fails or crashes, every call is within the rules. -/
theorem deliveries_may (fresh : w.Fresh) (reach : Reachable h allow w s) {pid : Nat} {o : Op} (calling : s.Calling pid o)
    (env : Env) : (deliveryRules False).may pid s.config o := by
  obtain ⟨hi, meets⟩ := deliveries_run False fresh (fun R => R.elim) reach
  obtain ⟨request, k, hp⟩ := calling
  exact (meets.may (deliveryRules False) (fun _ _ _ => True) hi hp env fun R => R.elim).1

/-- A delivered row never changes again. -/
theorem delivered_step (fresh : w.Fresh) (reach : Reachable h allow w s) {pid : Nat} {o : Op} (calling : s.Calling pid o)
    (env : Env) {d : WebhookDelivery} (hd : d ∈ deliveries s.config) (hs : d.status = .delivered) :
    d ∈ deliveries (s.config.after pid env o) :=
  (deliveries_run False fresh (fun R => R.elim) reach).1.delivered_kept (deliveries_may fresh reach calling env) env hd hs

/-! ### Orphans -/

/-- A live worker holds the delivery and is still at work. -/
def InHand (s : State) (d : WebhookDelivery) : Prop :=
  ∃ pid o, s.Calling pid o ∧ holder s.config.trace d.id = some pid

/-- Every delivery is finished, in the hands of a live worker, or open to a later claim. -/
def NoOrphans (s : State) : Prop :=
  ∀ d ∈ deliveries s.config, d.status = .delivered ∨ d.status = .failed ∨ InHand s d ∨
    (d.status = .pending ∨ d.status = .retrying) ∧ d.attemptCount < d.maxAttempts

/-- No worker crashes with a delivery in its hands, no claim is committed without its answer, and no update of a
    delivery is lost. -/
def Careful (s : State) : Action machine Request → Prop
  | .spawn _ => True
  | .step pid env => ∀ o, s.Calling pid o → Undisturbed o env
  | .crash pid => ∀ id, holder s.config.trace id ≠ some pid

/-- In careful runs the holder of a delivery is alive. -/
theorem holder_alive (reach : Reachable h Careful w s) {id : UUID} {pid : Nat}
    (hp : holder s.config.trace id = some pid) : ∃ p, s.procs[pid]? = some p ∧ p.alive = true := by
  revert id pid
  refine reach.invariant (fun s => ∀ {id pid}, holder s.config.trace id = some pid →
    ∃ p, s.procs[pid]? = some p ∧ p.alive = true) (fun hp => by cases hp) ?_
  intro s t a prior ih careful taken id pid hp
  rcases System.next_cases taken with ⟨request, rfl, rfl⟩ | ⟨actor, env, request, o, k, rfl, ha, rfl⟩ |
      ⟨actor, q, rfl, ha, rfl⟩
  · obtain ⟨p, hget, alive⟩ := ih hp
    exact ⟨p, List.getElem?_append_left (List.getElem?_eq_some_iff.1 hget).1 ▸ hget, alive⟩
  · have hlt := (List.getElem?_eq_some_iff.1 ha).1
    by_cases he : pid = actor
    · subst he
      exact ⟨_, List.getElem?_set_self hlt, rfl⟩
    · simp only [Config.after_trace, holder] at hp
      rw [List.getElem?_set_ne (Ne.symm he)]
      split at hp
      · exact (he (Option.some.inj hp).symm).elim
      · split at hp
        · cases hp
        · exact ih hp
  · have hne : actor ≠ pid := fun he => careful id (he ▸ hp)
    rw [List.getElem?_set_ne hne]
    exact ih hp

/-- Careful runs orphan no delivery. -/
theorem no_orphans_of_careful (fresh : w.Fresh) (reach : Reachable h Careful w s) : NoOrphans s := by
  obtain ⟨hi, meets⟩ := deliveries_run True fresh (fun _ s pid env o careful calling => careful o calling) reach
  intro d hd
  cases hs : d.status with
  | delivered => exact Or.inl rfl
  | failed => exact Or.inr (Or.inl rfl)
  | pending => exact Or.inr (Or.inr (Or.inr ⟨Or.inl rfl, hi.due d hd (Or.inl hs)⟩))
  | retrying => exact Or.inr (Or.inr (Or.inr ⟨Or.inr rfl, hi.due d hd (Or.inr hs)⟩))
  | delivering =>
    obtain ⟨pid, hp⟩ := hi.owned trivial d hd hs
    obtain ⟨⟨request, prog, alive⟩, hget, rfl⟩ := holder_alive reach hp
    have wp := meets pid _ hget rfl
    -- a program that ended holds nothing
    have ended : ¬ Holding pid [] [] s.config := fun hold => by cases hold.only d.id hp
    cases prog with
    | ret a => exact (ended (wp s.config .refl hi)).elim
    | fail e => exact (ended (wp s.config .refl hi)).elim
    | call o k => exact Or.inr (Or.inr (Or.inl ⟨pid, o, ⟨request, k, hget⟩, hp⟩))

end Runs

/-- A task is created, whose event goes to one endpoint, and a worker claims the delivery. -/
def claimedRun : List (Action machine Request) :=
  [.spawn (.createTask sampleTask)] ++ steps 0 0 [0, 0, 21, 0, 0, 0, 0, 22, 23, 0] ++
    [.spawn .processDue] ++ steps 1 0 [0, 0]

theorem sampleWorld_fresh : (sampleWorld [] []).Fresh :=
  ⟨rfl, fun _ => rfl, rfl, rfl, rfl, List.nodup_nil⟩

theorem careful_of_calm {s : State} {a : Action machine Request} (calm : Calm a) : Careful s a := by
  cases a with
  | spawn request => trivial
  | crash pid => exact calm.elim
  | step pid env =>
    intro o _
    unfold Undisturbed
    split
    · intro e he
      cases calm.symm.trans he
    · intro e he
      cases calm.symm.trans he
    · trivial

theorem claimedRun_calm {a : Action machine Request} (h : a ∈ claimedRun) : Calm a := by
  simp only [claimedRun, List.mem_append, List.mem_singleton] at h
  rcases h with ((rfl | h) | rfl) | h
  · trivial
  · exact steps_calm h
  · trivial
  · exact steps_calm h

theorem claimedRun_no_orphans :
    ∃ s, (System.init (sampleWorld [] [])).run (body sampleHost) claimedRun = some s ∧
      (deliveries s.config).map (·.status) = [.delivering] ∧ NoOrphans s := by
  obtain ⟨s, run, rows⟩ : ∃ s, (System.init (sampleWorld [] [])).run (body sampleHost) claimedRun = some s ∧
      (deliveries s.config).map (·.status) = [.delivering] := ⟨_, rfl, rfl⟩
  have reach : Reachable sampleHost Careful (sampleWorld [] []) s :=
    System.reach_of_run (fun a ha _ => careful_of_calm (claimedRun_calm ha)) run
  exact ⟨s, run, rows, no_orphans_of_careful sampleWorld_fresh reach⟩

/-- The worker of the run crashes with the delivery in its hands. -/
theorem crash_orphans_delivery : ∃ s, Reachable sampleHost anything (sampleWorld [] []) s ∧ ¬ NoOrphans s := by
  have run : ∃ s, (System.init (sampleWorld [] [])).run (body sampleHost) (claimedRun ++ [.crash 1]) = some s ∧
      (deliveries s.config).map (fun d => (d.id, d.status)) = [(⟨23⟩, .delivering)] ∧
      holder s.config.trace ⟨23⟩ = some 1 ∧ s.procs.map (·.alive) = [true, false] := ⟨_, rfl, rfl, rfl, rfl⟩
  obtain ⟨s, hs, rows, held, alive⟩ := run
  refine ⟨s, System.reach_of_run (fun _ _ _ => trivial) hs, fun all => ?_⟩
  obtain ⟨d, hd, he⟩ := List.mem_map.1 (rows ▸ List.mem_singleton_self _)
  simp only [Prod.mk.injEq] at he
  rcases all d hd with h | h | ⟨pid, o, calling, hp⟩ | ⟨h | h, -⟩
  · cases he.2.symm.trans h
  · cases he.2.symm.trans h
  · rw [he.1, held] at hp
    have := calling.alive
    rw [alive, ← Option.some.inj hp] at this
    cases this
  · cases he.2.symm.trans h
  · cases he.2.symm.trans h

end Windylane
