/-! Programs that call operations of a shared store. A program is a tree: it returns, fails, or calls one
    operation and goes on with the answer. Everything between two calls is local, so one call is one atomic
    step of a process, and a process can stop between any two of them. -/

namespace Conc

/-- The operations programs call, what each answers when it succeeds, and the errors it can answer. -/
structure Signature where
  Op : Type
  Resp : Op → Type
  Err : Type

/-- What an operation answers: an error, or its response. -/
abbrev Signature.Answer (S : Signature) (o : S.Op) : Type := Except S.Err (S.Resp o)

inductive Prog (S : Signature) (α : Type) : Type where
  | ret (a : α)
  | fail (e : S.Err)
  | call (o : S.Op) (k : S.Answer o → Prog S α)

namespace Prog
variable {S : Signature} {α β γ : Type}

/-- Run `p`, then `f` on what it returned; a failure of `p` is a failure of the whole. -/
@[simp] def bind : Prog S α → (α → Prog S β) → Prog S β
  | ret a, f => f a
  | fail e, _ => fail e
  | call o k, f => call o fun r => (k r).bind f

instance : Monad (Prog S) where
  pure := ret
  bind := bind

/-- Call `o` and fail when it answers an error. -/
def perform (o : S.Op) : Prog S (S.Resp o) :=
  call o fun
    | .ok r => ret r
    | .error e => fail e

/-- Call `o` and go on with its answer, an error or not. -/
def attempt (o : S.Op) : Prog S (S.Answer o) := call o ret

/-- Run `p` and hand its failure over as a value. -/
def catched : Prog S α → Prog S (Except S.Err α)
  | ret a => ret (.ok a)
  | fail e => ret (.error e)
  | call o k => call o fun r => (k r).catched

/-- What a program that has ended answers. -/
def result : Prog S α → Option (Except S.Err α)
  | ret a => some (.ok a)
  | fail e => some (.error e)
  | call _ _ => none

@[simp] theorem pure_eq (a : α) : (pure a : Prog S α) = ret a := rfl
@[simp] theorem ret_bind (a : α) (f : α → Prog S β) : (ret a >>= f) = f a := rfl
@[simp] theorem fail_bind (e : S.Err) (f : α → Prog S β) : ((fail e : Prog S α) >>= f) = fail e := rfl
@[simp] theorem call_bind (o : S.Op) (k : S.Answer o → Prog S α) (f : α → Prog S β) :
    (call o k >>= f) = call o fun r => k r >>= f := rfl

theorem bind_assoc (p : Prog S α) (f : α → Prog S β) (g : β → Prog S γ) :
    (p >>= f >>= g) = p >>= fun a => f a >>= g := by
  induction p with
  | ret a => rfl
  | fail e => rfl
  | call o k ih =>
    show call o _ = call o _
    congr 1
    funext r
    exact ih r

/-- Every operation the program can call satisfies `P`. -/
def Calls (P : S.Op → Prop) : Prog S α → Prop
  | ret _ => True
  | fail _ => True
  | call o k => P o ∧ ∀ r, (k r).Calls P

section Calls
variable {P : S.Op → Prop}

@[simp] theorem calls_ret (a : α) : (ret a : Prog S α).Calls P := trivial
@[simp] theorem calls_fail (e : S.Err) : (fail e : Prog S α).Calls P := trivial
@[simp] theorem calls_call (o : S.Op) (k : S.Answer o → Prog S α) :
    (call o k).Calls P ↔ P o ∧ ∀ r, (k r).Calls P := Iff.rfl

@[simp] theorem calls_ite {p : Prop} [Decidable p] {q r : Prog S α} :
    (if p then q else r).Calls P ↔ (p → q.Calls P) ∧ (¬p → r.Calls P) := by
  split <;> simp_all

/-- An answer is an error or a response. -/
@[simp] theorem forall_answer {ε : Type} {p : Except ε α → Prop} :
    (∀ r, p r) ↔ (∀ e, p (.error e)) ∧ ∀ a, p (.ok a) := by
  refine ⟨fun h => ⟨fun e => h _, fun a => h _⟩, fun h r => ?_⟩
  cases r with
  | error e => exact h.1 e
  | ok a => exact h.2 a

theorem Calls.bind {p : Prog S α} {f : α → Prog S β} (hp : p.Calls P) (hf : ∀ a, (f a).Calls P) :
    (p >>= f).Calls P := by
  induction p with
  | ret a => exact hf a
  | fail e => trivial
  | call o k ih => exact ⟨hp.1, fun r => ih r (hp.2 r)⟩

theorem Calls.of_bind {p : Prog S α} {f : α → Prog S β} (h : (p >>= f).Calls P) : p.Calls P := by
  induction p with
  | ret a => trivial
  | fail e => trivial
  | call o k ih => exact ⟨h.1, fun r => ih r (h.2 r)⟩

theorem calls_any (p : Prog S α) : p.Calls fun _ => True := by
  induction p with
  | ret a => trivial
  | fail e => trivial
  | call o k ih => exact ⟨trivial, ih⟩

theorem Calls.catched {p : Prog S α} (hp : p.Calls P) : p.catched.Calls P := by
  induction p with
  | ret a => trivial
  | fail e => trivial
  | call o k ih => exact ⟨hp.1, fun r => ih r (hp.2 r)⟩

theorem Calls.mono {Q : S.Op → Prop} (h : ∀ o, P o → Q o) {p : Prog S α} (hp : p.Calls P) : p.Calls Q := by
  induction p with
  | ret a => trivial
  | fail e => trivial
  | call o k ih => exact ⟨h o hp.1, fun r => ih r (hp.2 r)⟩

end Calls

/-- However its calls are answered, within what `R` says of the answers, the program ends as `φ` says. -/
def Ends (R : (o : S.Op) → S.Answer o → Prop) (φ : Except S.Err α → Prop) : Prog S α → Prop
  | ret a => φ (.ok a)
  | fail e => φ (.error e)
  | call o k => ∀ r, R o r → (k r).Ends R φ

/-- Fewer answers have to be considered. -/
theorem Ends.answered {R R' : (o : S.Op) → S.Answer o → Prop} {φ : Except S.Err α → Prop} {p : Prog S α} (hp : p.Ends R φ)
    (fewer : ∀ o r, R' o r → R o r) : p.Ends R' φ := by
  induction p with
  | ret a => exact hp
  | fail e => exact hp
  | call o k ih => exact fun r hr => ih r (hp r (fewer o r hr))

theorem Ends.ended {R : (o : S.Op) → S.Answer o → Prop} {φ : Except S.Err α → Prop} {p : Prog S α} {r : Except S.Err α}
    (hp : p.Ends R φ) (ended : p.result = some r) : φ r := by
  cases p with
  | ret a =>
    cases ended
    exact hp
  | fail e =>
    cases ended
    exact hp
  | call o k => cases ended

theorem Ends.imp {R : (o : S.Op) → S.Answer o → Prop} {φ ψ : Except S.Err α → Prop} {p : Prog S α} (hp : p.Ends R φ)
    (h : ∀ r, φ r → ψ r) : p.Ends R ψ := by
  induction p with
  | ret a => exact h _ hp
  | fail e => exact h _ hp
  | call o k ih => exact fun r hr => ih r (hp r hr)

theorem Ends.bind {R : (o : S.Op) → S.Answer o → Prop} {φ : Except S.Err α → Prop} {ψ : Except S.Err β → Prop}
    {p : Prog S α} {f : α → Prog S β} (hp : p.Ends R φ) (hf : ∀ a, φ (.ok a) → (f a).Ends R ψ)
    (he : ∀ e, φ (.error e) → ψ (.error e)) : (p >>= f).Ends R ψ := by
  induction p with
  | ret a => exact hf a hp
  | fail e => exact he e hp
  | call o k ih => exact fun r hr => ih r (hp r hr)

/-- A property of programs that every program has which is made of operations of `A` and of programs that have it. -/
structure Closed (A : S.Op → Prop) (G : ∀ {α : Type}, Prog S α → Prop) : Prop where
  ret : ∀ {α : Type} (a : α), G (ret a : Prog S α)
  fail : ∀ {α : Type} (e : S.Err), G (fail e : Prog S α)
  call : ∀ {α : Type} (o : S.Op) (k : S.Answer o → Prog S α), A o → (∀ r, G (k r)) → G (call o k)
  bind : ∀ {α β : Type} {p : Prog S α} {f : α → Prog S β}, G p → (∀ a, G (f a)) → G (p >>= f)
  catched : ∀ {α : Type} {p : Prog S α}, G p → G p.catched

section Closed
variable {A : S.Op → Prop} {G : ∀ {α : Type}, Prog S α → Prop}

theorem Closed.perform (closed : Closed A G) {o : S.Op} {f : S.Resp o → Prog S α} (ho : A o) (hf : ∀ a, G (f a)) :
    G (perform o >>= f) := by
  refine closed.call o _ ho fun r => ?_
  cases r with
  | ok a => exact hf a
  | error e => exact closed.fail e

theorem Closed.attempt (closed : Closed A G) {o : S.Op} {f : S.Answer o → Prog S α} (ho : A o) (hf : ∀ a, G (f a)) :
    G (attempt o >>= f) := closed.call o _ ho hf

theorem closed_calls {P : S.Op → Prop} (h : ∀ o, A o → P o) : Closed A (fun {_} p => p.Calls P) where
  ret := fun _ => trivial
  fail := fun _ => trivial
  call := fun o _ ho hk => ⟨h o ho, hk⟩
  bind := Calls.bind
  catched := Calls.catched

end Closed
end Prog
end Conc
