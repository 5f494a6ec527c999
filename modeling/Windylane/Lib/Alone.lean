import Windylane.Lib.History

/-! A process that runs to its end while the others wait. Its calls are followed one by one, with what is known of the
    states of the system that it passes through. -/

namespace Conc
variable {M : Machine} {Req Res α β : Type}

/-! ### Answer, world and calls -/

/-- The calls that a program makes when it runs alone. -/
def Prog.called (env : Nat → M.Env) : Prog M.toSignature α → M.World → List M.Op
  | .ret _, _ => []
  | .fail _, _ => []
  | .call o k, w => o :: Prog.called (fun i => env (i + 1)) (k (M.exec (env 0) o w).1) (M.exec (env 0) o w).2

/-- Alone in `w`, the program makes these calls, answers `r` and leaves `w'`. -/
structure Prog.Ran (env : Nat → M.Env) (p : Prog M.toSignature α) (w : M.World) (r : Except M.Err α) (w' : M.World)
    (calls : List M.Op) : Prop where
  alone : p.alone env w = (r, w')
  called : p.called env w = calls

theorem ran_ret (env : Nat → M.Env) (a : α) (w : M.World) :
    (Prog.ret a : Prog M.toSignature α).Ran env w (.ok a) w [] := ⟨rfl, rfl⟩

theorem ran_call {env : Nat → M.Env} {o : M.Op} {k : M.Answer o → Prog M.toSignature α} {w w' w'' : M.World} {a : M.Answer o}
    {r : Except M.Err α} {calls : List M.Op} (answered : M.exec (env 0) o w = (a, w'))
    (rest : (k a).Ran (fun i => env (i + 1)) w' r w'' calls) : (Prog.call o k).Ran env w r w'' (o :: calls) := by
  constructor
  · simp only [Prog.alone, answered]
    exact rest.alone
  · simp only [Prog.called, answered]
    rw [rest.called]

/-- The second program goes on where the first one ended. -/
theorem Prog.Ran.bind {env : Nat → M.Env} {p : Prog M.toSignature α} {f : α → Prog M.toSignature β} {w w' w'' : M.World}
    {a : α} {r : Except M.Err β} {calls calls' : List M.Op} (first : p.Ran env w (.ok a) w' calls)
    (rest : (f a).Ran (fun i => env (i + calls.length)) w' r w'' calls') : (p >>= f).Ran env w r w'' (calls ++ calls') := by
  induction p generalizing env w calls with
  | ret b =>
    obtain ⟨alone, called⟩ := first
    cases alone
    cases called
    exact rest
  | fail e => cases first.alone
  | call o k ih =>
    obtain ⟨alone, called⟩ := first
    cases called
    exact ran_call rfl (ih _ ⟨alone, rfl⟩ rest)

/-! ### What is known on the way -/

/-- Called by `pid` under environments of `E`, with no other call in between, the program ends as `Φ` says. The states that
    the process passes through are those of `R`. -/
def Prog.Solo (R : System M Req Res → Prop) (E : M.Env → Prop) (pid : Nat) (Φ : Except M.Err α → Config M → Prop) :
    Prog M.toSignature α → Config M → Prop
  | .ret a, c => (∃ s, R s ∧ s.config = c) → Φ (.ok a) c
  | .fail e, c => (∃ s, R s ∧ s.config = c) → Φ (.error e) c
  | .call o k, c => (∃ s, R s ∧ s.config = c ∧ s.Calling pid o) → ∀ env, E env →
      Prog.Solo R E pid Φ (k (M.exec env o c.world).1) (c.after pid env o)

section Rules
variable {R : System M Req Res → Prop} {E : M.Env → Prop} {pid : Nat} {c : Config M}

theorem Prog.Solo.assume {Φ : Except M.Err α → Config M → Prop} {p : Prog M.toSignature α}
    (h : (∃ s, R s ∧ s.config = c) → p.Solo R E pid Φ c) : p.Solo R E pid Φ c := by
  cases p with
  | ret a => exact fun known => h known known
  | fail e => exact fun known => h known known
  | call o k =>
    rintro ⟨s, hs, hc, calling⟩
    exact h ⟨s, hs, hc⟩ ⟨s, hs, hc, calling⟩

theorem Prog.Solo.imp {Φ Ψ : Except M.Err α → Config M → Prop} {p : Prog M.toSignature α} (hp : p.Solo R E pid Φ c)
    (h : ∀ r c, (∃ s, R s ∧ s.config = c) → Φ r c → Ψ r c) : p.Solo R E pid Ψ c := by
  induction p generalizing c with
  | ret a => exact fun known => h _ _ known (hp known)
  | fail e => exact fun known => h _ _ known (hp known)
  | call o k ih => exact fun known env he => ih _ (hp known env he)

theorem Prog.Solo.bind {Φ : Except M.Err α → Config M → Prop} {Ψ : Except M.Err β → Config M → Prop}
    {p : Prog M.toSignature α} {f : α → Prog M.toSignature β} (hp : p.Solo R E pid Φ c)
    (hf : ∀ a c, Φ (.ok a) c → (f a).Solo R E pid Ψ c) (he : ∀ e c, Φ (.error e) c → Ψ (.error e) c) :
    (p >>= f).Solo R E pid Ψ c := by
  induction p generalizing c with
  | ret a => exact .assume fun known => hf a c (hp known)
  | fail e => exact fun known => he e c (hp known)
  | call o k ih => exact fun known env calm => ih _ (hp known env calm)

theorem solo_ret {Φ : Except M.Err α → Config M → Prop} {a : α} (h : Φ (.ok a) c) :
    (Prog.ret a : Prog M.toSignature α).Solo R E pid Φ c := fun _ => h

/-- A call that answers `a`. -/
theorem solo_perform {Φ : Except M.Err α → Config M → Prop} {o : M.Op} {f : M.Resp o → Prog M.toSignature α}
    (h : ∀ s, R s → s.config = c → s.Calling pid o → ∀ env, E env → ∃ a, (M.exec env o c.world).1 = .ok a ∧
      (f a).Solo R E pid Φ (c.after pid env o)) : (Prog.perform o >>= f).Solo R E pid Φ c := by
  rintro ⟨s, hs, hc, calling⟩ env he
  obtain ⟨a, answered, rest⟩ := h s hs hc calling env he
  rw [answered]
  exact rest

theorem solo_attempt {Φ : Except M.Err α → Config M → Prop} {o : M.Op} {f : M.Answer o → Prog M.toSignature α}
    (h : ∀ s, R s → s.config = c → s.Calling pid o → ∀ env, E env →
      (f (M.exec env o c.world).1).Solo R E pid Φ (c.after pid env o)) : (Prog.attempt o >>= f).Solo R E pid Φ c := by
  rintro ⟨s, hs, hc, calling⟩ env he
  exact h s hs hc calling env he

/-- What every call keeps holds at the end. -/
theorem Prog.solo_keeps {I : Config M → Prop}
    (keeps : ∀ s, R s → ∀ o env, s.Calling pid o → E env → I s.config → I (s.config.after pid env o))
    (p : Prog M.toSignature α) (h : I c) : p.Solo R E pid (fun _ c => I c) c := by
  induction p generalizing c with
  | ret a => exact fun _ => h
  | fail e => exact fun _ => h
  | call o k ih =>
    rintro ⟨s, hs, rfl, calling⟩ env he
    exact ih _ (keeps s hs o env calling he h)

/-- A program that makes only calls of `C`, and ends as `φ` says by their answers, keeps what these calls keep. -/
theorem Prog.solo_calls {I : Config M → Prop} {C : M.Op → Prop} {A : (o : M.Op) → M.Answer o → Prop}
    {φ : Except M.Err α → Prop} {p : Prog M.toSignature α} (calls : p.Calls C) (ends : p.Ends A φ)
    (answers : ∀ s o env, R s → s.Calling pid o → C o → E env → I s.config → A o (M.exec env o s.config.world).1)
    (keeps : ∀ s o env, R s → s.Calling pid o → C o → E env → I s.config → I (s.config.after pid env o)) (h : I c) :
    p.Solo R E pid (fun r c => φ r ∧ I c) c := by
  induction p generalizing c with
  | ret a => exact fun _ => ⟨ends, h⟩
  | fail e => exact fun _ => ⟨ends, h⟩
  | call o k ih =>
    rintro ⟨s, hs, rfl, calling⟩ env he
    exact ih _ (calls.2 _) (ends _ (answers s o env hs calling calls.1 he h)) (keeps s o env hs calling calls.1 he h)

end Rules

/-- A process that is at the program, and runs alone, ends as was said. -/
theorem Prog.Solo.alone {body : Req → Prog M.toSignature Res} {R : System M Req Res → Prop} {E : M.Env → Prop} {pid : Nat}
    {Φ : Except M.Err α → Config M → Prop} {p : Prog M.toSignature α}
    (next : ∀ s t env, R s → E env → s.next body (.step pid env) = some t → R t) {request : Req}
    {K : α → Prog M.toSignature Res} {s : System M Req Res} (hp : s.procs[pid]? = some ⟨request, p >>= K, true⟩) (hs : R s)
    (solo : p.Solo R E pid Φ s.config) (env : Nat → M.Env) (he : ∀ i, E (env i)) :
    ∃ t, R t ∧ t.config.world = (p.alone env s.config.world).2 ∧ Φ (p.alone env s.config.world).1 t.config := by
  induction p generalizing s env with
  | ret a => exact ⟨s, hs, rfl, solo ⟨s, hs, rfl⟩⟩
  | fail e => exact ⟨s, hs, rfl, solo ⟨s, hs, rfl⟩⟩
  | call o k ih =>
    have calling : s.Calling pid o := ⟨request, _, hp⟩
    have taken : s.next body (.step pid (env 0)) = some ⟨s.config.after pid (env 0) o,
        s.procs.set pid ⟨request, k (M.exec (env 0) o s.config.world).1 >>= K, true⟩⟩ := by
      simp only [System.next, hp, Prog.call_bind]
    have spawned : pid < s.procs.length := (List.getElem?_eq_some_iff.1 hp).1
    exact ih _ (List.getElem?_set_self spawned) (next _ _ _ hs (he 0) taken) (solo ⟨s, hs, rfl, calling⟩ _ (he 0))
      (fun i => env (i + 1)) fun i => he (i + 1)

end Conc
