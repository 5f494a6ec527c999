import Windylane.Lib.System

/-! The past of one process. What is left of its program depends on the answers to its own calls only, and the trace
    holds these; so what a program says of its calls from its past, it says in every state of the system. -/

namespace Conc

/-- A call and its answer. -/
abbrev Signature.Exchange (S : Signature) : Type := (o : S.Op) × S.Answer o

namespace Prog
variable {S : Signature} {α β : Type}

/-- The program has made the calls `past`. As long as they are answered as `A` says, each further one is as `P` says of
    it and of the calls before it, and the program ends as `Q` says of all of them. -/
def Along (A : (o : S.Op) → S.Answer o → Prop) (P : List S.Exchange → S.Op → Prop)
    (Q : List S.Exchange → Except S.Err α → Prop) : List S.Exchange → Prog S α → Prop
  | past, ret a => Q past (.ok a)
  | past, fail e => Q past (.error e)
  | past, call o k => P past o ∧ ∀ r, A o r → (k r).Along A P Q (past ++ [⟨o, r⟩])

section Along
variable {A : (o : S.Op) → S.Answer o → Prop} {P : List S.Exchange → S.Op → Prop}
  {Q : List S.Exchange → Except S.Err β → Prop} {R : List S.Exchange → Except S.Err α → Prop}
  {past : List S.Exchange}

theorem Along.bind {p : Prog S α} {f : α → Prog S β} (hp : p.Along A P R past)
    (hf : ∀ past a, R past (.ok a) → (f a).Along A P Q past) (he : ∀ past e, R past (.error e) → Q past (.error e)) :
    (p >>= f).Along A P Q past := by
  induction p generalizing past with
  | ret a => exact hf past a hp
  | fail e => exact he past e hp
  | call o k ih => exact ⟨hp.1, fun r hr => ih r (hp.2 r hr)⟩

/-- Call an operation and go on with its response, or fail. -/
theorem Along.perform {o : S.Op} {f : S.Resp o → Prog S β} (ho : P past o)
    (he : ∀ e, A o (.error e) → Q (past ++ [⟨o, .error e⟩]) (.error e))
    (hf : ∀ a, A o (.ok a) → (f a).Along A P Q (past ++ [⟨o, .ok a⟩])) : (perform o >>= f).Along A P Q past := by
  refine ⟨ho, fun r hr => ?_⟩
  cases r with
  | error e => exact he e hr
  | ok a => exact hf a hr

/-- Call an operation and go on with its answer. -/
theorem Along.attempt {o : S.Op} {f : S.Answer o → Prog S β} (ho : P past o)
    (hf : ∀ r, A o r → (f r).Along A P Q (past ++ [⟨o, r⟩])) : (attempt o >>= f).Along A P Q past := ⟨ho, hf⟩

theorem Along.ended {p : Prog S β} {r : Except S.Err β} (hp : p.Along A P Q past) (ended : p.result = some r) :
    Q past r := by
  cases p with
  | ret a =>
    cases ended
    exact hp
  | fail e =>
    cases ended
    exact hp
  | call o k => cases ended

/-- A program whose calls are right whatever was called before. -/
theorem Calls.along {C : S.Op → Prop} {p : Prog S β} (hp : p.Calls C) (hC : ∀ past o, C o → P past o)
    (hQ : ∀ past r, Q past r) : p.Along A P Q past := by
  induction p generalizing past with
  | ret a => exact hQ past _
  | fail e => exact hQ past _
  | call o k ih => exact ⟨hC past o hp.1, fun r _ => ih r (hp.2 r)⟩

/-- The same, with what is known of its end. -/
theorem Ends.along {C : S.Op → Prop} {R : (o : S.Op) → S.Answer o → Prop} {φ : Except S.Err β → Prop} {p : Prog S β}
    (he : p.Ends R φ) (hR : ∀ o r, A o r → R o r) (hp : p.Calls C) (hC : ∀ past o, C o → P past o) :
    p.Along A P (fun _ r => φ r) past := by
  induction p generalizing past with
  | ret a => exact he
  | fail e => exact he
  | call o k ih => exact ⟨hC past o hp.1, fun r hr => ih r (he r (hR o r hr)) (hp.2 r)⟩

theorem Along.imp {Q' : List S.Exchange → Except S.Err β → Prop} {p : Prog S β} (hp : p.Along A P Q past)
    (h : ∀ past r, Q past r → Q' past r) : p.Along A P Q' past := by
  induction p generalizing past with
  | ret a => exact h past _ hp
  | fail e => exact h past _ hp
  | call o k ih => exact ⟨hp.1, fun r hr => ih r (hp.2 r hr)⟩

/-- Less may be said of its calls. -/
theorem Along.mono {P' : List S.Exchange → S.Op → Prop} {p : Prog S β} (hp : p.Along A P Q past)
    (h : ∀ past o, P past o → P' past o) : p.Along A P' Q past := by
  induction p generalizing past with
  | ret a => exact hp
  | fail e => exact hp
  | call o k ih => exact ⟨h past o hp.1, fun r hr => ih r (hp.2 r hr)⟩

/-- A failure that is caught ends at the same calls. -/
theorem Along.catched {Q : List S.Exchange → Prop} {p : Prog S β} (hp : p.Along A P (fun after _ => Q after) past) :
    p.catched.Along A P (fun after _ => Q after) past := by
  induction p generalizing past with
  | ret a => exact hp
  | fail e => exact hp
  | call o k ih => exact ⟨hp.1, fun r hr => ih r (hp.2 r hr)⟩

/-- The calls that a program adds to its past are its own. -/
theorem Along.framed {C : S.Op → Prop} {p : Prog S β} (hp : p.Along A P Q past) (hc : p.Calls C) :
    p.Along A P (fun after r => Q after r ∧ ∃ more, after = past ++ more ∧ ∀ c ∈ more, C c.1) past := by
  induction p generalizing past with
  | ret a => exact ⟨hp, [], by simp, by simp⟩
  | fail e => exact ⟨hp, [], by simp, by simp⟩
  | call o k ih =>
    refine ⟨hp.1, fun r hr => (ih r (hp.2 r hr) (hc.2 r)).imp ?_⟩
    rintro after r' ⟨hq, more, rfl, own⟩
    exact ⟨hq, ⟨o, r⟩ :: more, by simp, List.forall_mem_cons.2 ⟨hc.1, own⟩⟩

end Along

/-- The program adds to its past, and `φ` is said of a good end only. -/
def Walks (A : (o : S.Op) → S.Answer o → Prop) (P : List S.Exchange → S.Op → Prop) (φ : List S.Exchange → α → Prop)
    (past : List S.Exchange) (p : Prog S α) : Prop :=
  p.Along A P (fun after r => past <+: after ∧ ∀ a, r = .ok a → φ after a) past

section Walks
variable {A : (o : S.Op) → S.Answer o → Prop} {P : List S.Exchange → S.Op → Prop}
  {φ : List S.Exchange → β → Prop} {ψ : List S.Exchange → α → Prop} {past : List S.Exchange}

theorem walks_ret {b : β} (h : φ past b) : Walks A P φ past (ret b) := by
  refine ⟨List.prefix_refl _, fun a ha => ?_⟩
  cases ha
  exact h

theorem walks_fail (e : S.Err) : Walks A P φ past (fail e) := ⟨List.prefix_refl _, fun _ he => by cases he⟩

theorem Walks.bind {p : Prog S α} {f : α → Prog S β} (hp : Walks A P ψ past p)
    (hf : ∀ after a, past <+: after → ψ after a → Walks A P φ after (f a)) : Walks A P φ past (p >>= f) := by
  refine Along.bind hp ?_ ?_
  · rintro after a ⟨grown, ha⟩
    exact (hf after a grown (ha a rfl)).imp fun _ _ h => ⟨grown.trans h.1, h.2⟩
  · rintro after e ⟨grown, -⟩
    exact ⟨grown, fun _ he => by cases he⟩

theorem walks_attempt {o : S.Op} {f : S.Answer o → Prog S β} (ho : P past o)
    (hf : ∀ r, A o r → Walks A P φ (past ++ [⟨o, r⟩]) (f r)) : Walks A P φ past (attempt o >>= f) :=
  Along.attempt ho fun r hr => (hf r hr).imp fun _ _ h => ⟨(List.prefix_append _ _).trans h.1, h.2⟩

theorem walks_perform {o : S.Op} {f : S.Resp o → Prog S β} (ho : P past o)
    (hf : ∀ a, A o (.ok a) → Walks A P φ (past ++ [⟨o, .ok a⟩]) (f a)) : Walks A P φ past (perform o >>= f) := by
  refine Along.perform ho (fun e _ => ⟨List.prefix_append _ _, fun _ he => by cases he⟩) fun a ha => ?_
  exact (hf a ha).imp fun _ _ h => ⟨(List.prefix_append _ _).trans h.1, h.2⟩

theorem Walks.imp {φ' : List S.Exchange → β → Prop} {p : Prog S β} (hp : Walks A P φ past p)
    (h : ∀ after b, past <+: after → φ after b → φ' after b) : Walks A P φ' past p :=
  Along.imp hp fun after _ hq => ⟨hq.1, fun b hb => h after b hq.1 (hq.2 b hb)⟩

/-- The calls that a program adds to its past are its own. -/
theorem Walks.framed {C : S.Op → Prop} {p : Prog S β} (hp : Walks A P φ past p) (hc : p.Calls C) :
    Walks A P (fun after b => φ after b ∧ ∃ more, after = past ++ more ∧ ∀ c ∈ more, C c.1) past p :=
  (Along.framed hp hc).imp fun _ _ h => ⟨h.1.1, fun b hb => ⟨h.1.2 b hb, h.2⟩⟩

/-- Fewer answers have to be considered. -/
theorem Walks.answered {A' : (o : S.Op) → S.Answer o → Prop} {p : Prog S β} (hp : Walks A P φ past p)
    (fewer : ∀ o r, A' o r → A o r) : Walks A' P φ past p := by
  have along : ∀ {before : List S.Exchange} {p : Prog S β} {Q : List S.Exchange → Except S.Err β → Prop},
      p.Along A P Q before → p.Along A' P Q before := by
    intro before p Q hp
    induction p generalizing before with
    | ret a => exact hp
    | fail e => exact hp
    | call o k ih => exact ⟨hp.1, fun r hr => ih r (hp.2 r (fewer o r hr))⟩
  exact along hp

/-- A failure that is caught says nothing, but it adds to the past. -/
theorem Walks.catched {p : Prog S β} (hp : Walks A P φ past p) : Walks A P (fun _ _ => True) past p.catched :=
  ((Along.imp hp fun _ _ h => h.1).catched).imp fun _ _ grown => ⟨grown, fun _ _ => trivial⟩

end Walks

/-- Every call of the program is as `P` says, whatever was called before. -/
def Heeds (P : List S.Exchange → S.Op → Prop) (p : Prog S α) : Prop :=
  ∀ past, Walks (fun _ _ => True) P (fun _ _ => True) past p

section Heeds
variable {P : List S.Exchange → S.Op → Prop}

theorem closed_heeds {A : S.Op → Prop} (h : ∀ o, A o → ∀ past, P past o) : Closed A (fun {_} p => p.Heeds P) where
  ret := fun _ _ => walks_ret trivial
  fail := fun e _ => walks_fail e
  call := fun o _ ho hk past => walks_attempt (h o ho past) fun r _ => hk r _
  bind := fun hp hf past => (hp past).bind fun after a _ _ => hf a after
  catched := fun hp past => (hp past).catched

theorem Calls.heeds {A : S.Op → Prop} {p : Prog S α} (hp : p.Calls A) (h : ∀ o, A o → ∀ past, P past o) : p.Heeds P :=
  fun past => by
    induction p generalizing past with
    | ret a => exact walks_ret trivial
    | fail e => exact walks_fail e
    | call o k ih => exact walks_attempt (h o hp.1 past) fun r _ => ih r (hp.2 r) _

end Heeds
end Prog

/-- Having made the calls of the list, the first program goes on as the second. -/
inductive Prog.Replays {S : Signature} {α : Type} : Prog S α → List S.Exchange → Prog S α → Prop
  | refl (p : Prog S α) : Replays p [] p
  | call {o : S.Op} {k : S.Answer o → Prog S α} {r : S.Answer o} {past : List S.Exchange} {q : Prog S α}
      (rest : Replays (k r) past q) : Replays (.call o k) (⟨o, r⟩ :: past) q

theorem Prog.Replays.tail {S : Signature} {α : Type} {o : S.Op} {k : S.Answer o → Prog S α} {r : S.Answer o}
    {past : List S.Exchange} {q : Prog S α} (h : (Prog.call o k).Replays (⟨o, r⟩ :: past) q) : (k r).Replays past q := by
  cases h with
  | call rest => exact rest

theorem Prog.Replays.eq {S : Signature} {α : Type} {p q : Prog S α} (h : p.Replays [] q) : q = p := by
  cases h
  rfl

theorem Prog.Replays.concat {S : Signature} {α : Type} {p : Prog S α} {past : List S.Exchange} {o : S.Op}
    {k : S.Answer o → Prog S α} (h : p.Replays past (.call o k)) (r : S.Answer o) : p.Replays (past ++ [⟨o, r⟩]) (k r) := by
  generalize hq : Prog.call o k = q at h
  induction h with
  | refl p =>
    subst hq
    exact .call (.refl _)
  | call _ ih => exact .call (ih hq)

/-- What is left of a program, as its calls were answered, ends as the program does. -/
theorem Prog.Replays.ends {S : Signature} {α : Type} {p q : Prog S α} {past : List S.Exchange}
    {A : (o : S.Op) → S.Answer o → Prop} {φ : Except S.Err α → Prop} (h : p.Replays past q) (ends : p.Ends A φ)
    (answers : ∀ c ∈ past, A c.1 c.2) : q.Ends A φ := by
  induction h with
  | refl p => exact ends
  | call _ ih =>
    obtain ⟨here, later⟩ := List.forall_mem_cons.1 answers
    exact ih (ends _ here) later

variable {M : Machine}

/-- The calls of process `pid` with their answers, the first one first. -/
def history (pid : Nat) (trace : List (Event M)) : List M.Exchange :=
  (trace.filter (·.pid = pid)).reverse.map fun e => ⟨e.op, e.answer⟩

theorem history_self {pid : Nat} {e : Event M} (h : e.pid = pid) (trace : List (Event M)) :
    history pid (e :: trace) = history pid trace ++ [⟨e.op, e.answer⟩] := by
  simp [history, h]

theorem history_other {pid : Nat} {e : Event M} (h : e.pid ≠ pid) (trace : List (Event M)) :
    history pid (e :: trace) = history pid trace := by
  simp [history, h]

/-- The calls of a process are in the trace. -/
theorem exists_of_mem_history {pid : Nat} {trace : List (Event M)} {call : M.Exchange} (h : call ∈ history pid trace) :
    ∃ e ∈ trace, e.pid = pid ∧ call = ⟨e.op, e.answer⟩ := by
  obtain ⟨e, he, rfl⟩ := List.mem_map.1 h
  obtain ⟨mem, same⟩ := List.mem_filter.1 (List.mem_reverse.1 he)
  exact ⟨e, mem, of_decide_eq_true same, rfl⟩

/-- Nobody made calls before it was started. -/
theorem history_eq_nil {pid : Nat} {trace : List (Event M)} (h : ∀ e ∈ trace, e.pid < pid) : history pid trace = [] := by
  have none : trace.filter (fun e => decide (e.pid = pid)) = [] :=
    List.filter_eq_nil_iff.2 fun e he same => Nat.ne_of_lt (h e he) (of_decide_eq_true same)
  rw [history, none]
  rfl

section Known
variable {V : Type} {reads : M.Exchange → Option V} {overwrites : Event M → Bool} {pid : Nat} {v : V}

/-- What process `pid` read last, unless it was overwritten since. -/
def known (reads : M.Exchange → Option V) (overwrites : Event M → Bool) (pid : Nat) : List (Event M) → Option V
  | [] => none
  | e :: rest =>
    if overwrites e = true then none
    else if e.pid = pid then (reads ⟨e.op, e.answer⟩).or (known reads overwrites pid rest)
    else known reads overwrites pid rest

/-- What is known was read just now, or was known before. -/
theorem known_cons {e : Event M} {rest : List (Event M)} (h : known reads overwrites pid (e :: rest) = some v) :
    overwrites e = false ∧
      ((e.pid = pid ∧ reads ⟨e.op, e.answer⟩ = some v) ∨ known reads overwrites pid rest = some v) := by
  unfold known at h
  split at h
  · cases h
  · rename_i stays
    refine ⟨by simpa using stays, ?_⟩
    split at h
    · rename_i mine
      cases read : reads ⟨e.op, e.answer⟩ with
      | none =>
        rw [read, Option.none_or] at h
        exact Or.inr h
      | some v' =>
        rw [read, Option.some_or] at h
        exact Or.inl ⟨mine, h⟩
    · exact Or.inr h

theorem known_read {trace : List (Event M)} (h : known reads overwrites pid trace = some v) :
    ∃ c ∈ history pid trace, reads c = some v := by
  induction trace with
  | nil => cases h
  | cons e rest ih =>
    obtain ⟨-, ⟨mine, read⟩ | before⟩ := known_cons h
    · refine ⟨_, ?_, read⟩
      rw [history_self mine]
      exact List.mem_append_right _ (List.mem_singleton_self _)
    · obtain ⟨c, hc, read⟩ := ih before
      refine ⟨c, ?_, read⟩
      by_cases mine : e.pid = pid
      · rw [history_self mine]
        exact List.mem_append_left _ hc
      · rw [history_other mine]
        exact hc

theorem known_congr {overwrites' : Event M → Bool} {trace : List (Event M)}
    (same : ∀ e ∈ trace, overwrites e = overwrites' e) :
    known reads overwrites pid trace = known reads overwrites' pid trace := by
  induction trace with
  | nil => rfl
  | cons e rest ih =>
    unfold known
    rw [same e (List.mem_cons_self ..), ih fun e he => same e (List.mem_cons_of_mem _ he)]

end Known

section Runs
variable {Req Res : Type} {body : Req → Prog M.toSignature Res} {allow : System M Req Res → Action M Req → Prop}
  {w : M.World} {s : System M Req Res}

/-- A history only grows. -/
theorem System.Reach.history_prefix {s₀ : System M Req Res} (reach : System.Reach body allow s₀ s) (pid : Nat) :
    history pid s₀.config.trace <+: history pid s.config.trace := by
  refine reach.invariant (fun s => history pid s₀.config.trace <+: history pid s.config.trace) (List.prefix_refl _) ?_
  intro s t a _ grown _ taken
  rcases System.next_cases taken with ⟨_, -, rfl⟩ | ⟨actor, env, _, o, _, -, -, rfl⟩ | ⟨_, _, -, -, rfl⟩
  · exact grown
  · rw [Config.after_trace]
    by_cases mine : actor = pid
    · rw [history_self mine]
      exact grown.trans (List.prefix_append _ _)
    · rw [history_other mine]
      exact grown
  · exact grown

/-- The calls that a process makes are answered as they are in the states in which it makes them. -/
theorem System.Reach.answered {s₀ : System M Req Res} (reach : System.Reach body allow s₀ s) {pid : Nat}
    {A : (o : M.Op) → M.Answer o → Prop} (before : ∀ c ∈ history pid s₀.config.trace, A c.1 c.2)
    (answers : ∀ s env o, System.Reach body allow s₀ s → allow s (.step pid env) → s.Calling pid o →
      A o (M.exec env o s.config.world).1) : ∀ c ∈ history pid s.config.trace, A c.1 c.2 := by
  refine reach.invariant (fun s => ∀ c ∈ history pid s.config.trace, A c.1 c.2) before ?_
  intro s t a prior known allowed taken
  rcases System.next_cases taken with ⟨_, -, rfl⟩ | ⟨actor, env, request, o, k, rfl, hp, rfl⟩ | ⟨_, _, -, -, rfl⟩
  · exact known
  · rw [Config.after_trace]
    by_cases mine : actor = pid
    · subst mine
      rw [history_self (by rfl)]
      refine List.forall_mem_append.2 ⟨known, List.forall_mem_singleton.2 ?_⟩
      exact answers s env o prior allowed ⟨request, k, hp⟩
    · rw [history_other mine]
      exact known
  · exact known

/-- A process is where the calls that it made have led its program. -/
theorem System.Reach.replays (reach : System.Reach body allow (System.init w) s) {pid : Nat} {p : Process M Req Res}
    (hp : s.procs[pid]? = some p) : (body p.request).Replays (history pid s.config.trace) p.prog := by
  revert pid p
  refine reach.invariant (fun s => ∀ {pid : Nat} {p : Process M Req Res}, s.procs[pid]? = some p →
    (body p.request).Replays (history pid s.config.trace) p.prog) (fun hp => by simp [System.init] at hp) ?_
  intro s t a prior ih allowed taken pid p hp
  rcases System.next_cases taken with ⟨request, -, rfl⟩ | ⟨actor, env, request, o, k, rfl, ha, rfl⟩ | ⟨actor, q, -, ha, rfl⟩
  · rcases lookup_append hp with before | ⟨rfl, rfl⟩
    · exact ih before
    · rw [history_eq_nil prior.pid_lt]
      exact .refl _
  · rcases lookup_set hp with ⟨rfl, rfl⟩ | ⟨ne, before⟩
    · rw [Config.after_trace, history_self (by rfl)]
      exact (ih ha).concat _
    · rw [Config.after_trace, history_other (Ne.symm ne)]
      exact ih before
  · rcases lookup_set hp with ⟨rfl, rfl⟩ | ⟨-, before⟩
    · exact ih (p := q) ha
    · exact ih before

/-- What the calls are of a process that is not done after an action. -/
theorem System.Reach.busy_cases (prior : System.Reach body allow (System.init w) s) {t : System M Req Res} {a : Action M Req}
    (taken : s.next body a = some t) {pid : Nat} (busy : t.Busy pid) :
    history pid t.config.trace = [] ∨
      (∀ env, a ≠ .step pid env) ∧ s.Busy pid ∧ history pid t.config.trace = history pid s.config.trace ∨
      ∃ env o, a = .step pid env ∧ s.Calling pid o ∧
        history pid t.config.trace = history pid s.config.trace ++ [⟨o, (M.exec env o s.config.world).1⟩] := by
  obtain ⟨o', request', k', hp⟩ := busy
  rcases System.next_cases taken with ⟨request, rfl, rfl⟩ | ⟨actor, env, request, o, k, rfl, ha, rfl⟩ | ⟨actor, q, rfl, ha, rfl⟩
  · rcases lookup_append hp with before | ⟨rfl, -⟩
    · exact Or.inr (Or.inl ⟨nofun, ⟨o', request', k', before⟩, rfl⟩)
    · exact Or.inl (history_eq_nil prior.pid_lt)
  · rcases lookup_set hp with ⟨rfl, -⟩ | ⟨ne, before⟩
    · exact Or.inr (Or.inr ⟨env, o, rfl, ⟨request, k, ha⟩, history_self (by rfl) _⟩)
    · refine Or.inr (Or.inl ⟨?_, ⟨o', request', k', before⟩, history_other (Ne.symm ne) _⟩)
      rintro env' ⟨⟩
      exact ne rfl
  · rcases lookup_set hp with ⟨-, dead⟩ | ⟨-, before⟩
    · cases congrArg Process.alive dead
    · exact Or.inr (Or.inl ⟨nofun, ⟨o', request', k', before⟩, rfl⟩)

/-- What holds of the program of every request holds of what is left of it, with the calls it made. -/
theorem System.Reach.along (reach : System.Reach body allow (System.init w) s)
    {A : (o : M.Op) → M.Answer o → Prop} {P : Req → List M.Exchange → M.Op → Prop}
    {Q : Req → List M.Exchange → Except M.Err Res → Prop}
    (answers : ∀ s pid env o, System.Reach body allow (System.init w) s → allow s (.step pid env) → s.Calling pid o →
      A o (M.exec env o s.config.world).1)
    (programs : ∀ request, (body request).Along A (P request) (Q request) [])
    {pid : Nat} {p : Process M Req Res} (hp : s.procs[pid]? = some p) :
    p.prog.Along A (P p.request) (Q p.request) (history pid s.config.trace) := by
  revert pid p
  refine reach.invariant (fun s => ∀ {pid : Nat} {p : Process M Req Res}, s.procs[pid]? = some p →
    p.prog.Along A (P p.request) (Q p.request) (history pid s.config.trace))
    (fun hp => by simp [System.init] at hp) ?_
  intro s t a prior ih allowed taken pid p hp
  rcases System.next_cases taken with ⟨request, -, rfl⟩ | ⟨actor, env, request, o, k, rfl, ha, rfl⟩ | ⟨actor, q, -, ha, rfl⟩
  · rcases lookup_append hp with before | ⟨rfl, rfl⟩
    · exact ih before
    · rw [history_eq_nil prior.pid_lt]
      exact programs request
  · rcases lookup_set hp with ⟨rfl, rfl⟩ | ⟨ne, before⟩
    · rw [Config.after_trace, history_self (by rfl)]
      exact (ih ha).2 _ (answers s pid env o prior allowed ⟨request, k, ha⟩)
    · rw [Config.after_trace, history_other (Ne.symm ne)]
      exact ih before
  · rcases lookup_set hp with ⟨rfl, rfl⟩ | ⟨-, before⟩
    · exact ih (p := q) ha
    · exact ih before

/-- What every step keeps of the configuration, and what every answer, with the calls before it, said of it for good. -/
theorem System.Reach.recalls_past {W : Config M → Prop} {K : Config M → List M.Exchange → M.Exchange → Prop}
    (init : W ⟨w, []⟩)
    (step : ∀ s pid env o, System.Reach body allow (System.init w) s → allow s (.step pid env) → s.Calling pid o →
      W s.config → (∀ actor past c rest, history actor s.config.trace = past ++ c :: rest → K s.config past c) →
      W (s.config.after pid env o) ∧
        K (s.config.after pid env o) (history pid s.config.trace) ⟨o, (M.exec env o s.config.world).1⟩ ∧
        ∀ past c, K s.config past c → K (s.config.after pid env o) past c)
    (reach : System.Reach body allow (System.init w) s) :
    W s.config ∧ ∀ pid past c rest, history pid s.config.trace = past ++ c :: rest → K s.config past c := by
  refine reach.invariant (fun s => W s.config ∧
    ∀ pid past c rest, history pid s.config.trace = past ++ c :: rest → K s.config past c) ⟨init, ?_⟩ ?_
  · rintro _ past c rest split
    cases past <;> cases split
  intro s t a prior ih allowed taken
  rcases System.next_cases taken with ⟨request, -, rfl⟩ | ⟨actor, env, request, o, k, rfl, ha, rfl⟩ | ⟨actor, q, -, ha, rfl⟩
  · exact ih
  · obtain ⟨world, answered, kept⟩ := step s actor env o prior allowed ⟨request, k, ha⟩ ih.1 ih.2
    refine ⟨world, fun pid past c rest split => ?_⟩
    by_cases mine : actor = pid
    · subst mine
      rw [Config.after_trace, history_self (by rfl)] at split
      rcases List.eq_nil_or_concat rest with rfl | ⟨rest, last, rfl⟩
      · -- the call was answered just now
        obtain ⟨rfl, read⟩ := List.append_inj' split rfl
        cases read
        exact answered
      · rw [List.concat_eq_append, ← List.cons_append, ← List.append_assoc] at split
        exact kept past c (ih.2 actor past c rest (List.append_inj' split rfl).1)
    · rw [Config.after_trace, history_other mine] at split
      exact kept past c (ih.2 pid past c rest split)
  · exact ih

/-- The same, whatever was called before. -/
theorem System.Reach.recalls {W : Config M → Prop} {K : Config M → M.Exchange → Prop} (init : W ⟨w, []⟩)
    (step : ∀ s pid env o, System.Reach body allow (System.init w) s → allow s (.step pid env) → s.Calling pid o →
      W s.config → (∀ actor, ∀ c ∈ history actor s.config.trace, K s.config c) →
      W (s.config.after pid env o) ∧ K (s.config.after pid env o) ⟨o, (M.exec env o s.config.world).1⟩ ∧
        ∀ c, K s.config c → K (s.config.after pid env o) c)
    (reach : System.Reach body allow (System.init w) s) :
    W s.config ∧ ∀ pid, ∀ c ∈ history pid s.config.trace, K s.config c := by
  have run := reach.recalls_past (K := fun config _ c => K config c) init fun s pid env o prior allowed calling inv known => ?_
  · refine ⟨run.1, fun pid c hc => ?_⟩
    obtain ⟨past, rest, split⟩ := List.append_of_mem hc
    exact run.2 pid past c rest split
  · obtain ⟨kept, answered, last⟩ := step s pid env o prior allowed calling inv fun actor c hc => by
      obtain ⟨past, rest, split⟩ := List.append_of_mem hc
      exact known actor past c rest split
    exact ⟨kept, answered, fun _ c => last c⟩

end Runs
end Conc
