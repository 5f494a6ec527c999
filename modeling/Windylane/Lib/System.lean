import Windylane.Lib.Prog

/-! Systems of processes over one shared world. A process runs a program; one step of the system calls the
    next operation of one process, so a run is any interleaving of the processes' calls. Processes can be
    started at any time, and each can crash between two of its steps. The trace records every call with
    its answer, the latest first: what a property says about the past is a function of the trace. -/

namespace Conc

/-- A signature with the effect of each operation. `Env` holds what the outside world decides for one
    step: clock readings, fresh identifiers, faults. -/
structure Machine extends Signature where
  World : Type
  Env : Type
  exec : Env → (o : Op) → World → Except Err (Resp o) × World

variable {M : Machine}

/-- A call that process `pid` made, and its answer. -/
structure Event (M : Machine) where
  pid : Nat
  op : M.Op
  answer : M.Answer op

/-- The world, and the calls made so far. -/
structure Config (M : Machine) where
  world : M.World
  trace : List (Event M)

/-- A process: the request it serves, what is left of its program, and whether it is alive. -/
structure Process (M : Machine) (Req Res : Type) where
  request : Req
  prog : Prog M.toSignature Res
  alive : Bool

/-- Processes are named by their position. -/
structure System (M : Machine) (Req Res : Type) where
  config : Config M
  procs : List (Process M Req Res)

inductive Action (M : Machine) (Req : Type) where
  | spawn (request : Req)
  | step (pid : Nat) (env : M.Env)
  | crash (pid : Nat)

/-- What a program answers and the world after it, when no other process calls in between; `env i` is what the outside
    decides for its call `i`. -/
def Prog.alone {α : Type} (env : Nat → M.Env) : Prog M.toSignature α → M.World → Except M.Err α × M.World
  | .ret a, w => (.ok a, w)
  | .fail e, w => (.error e, w)
  | .call o k, w => Prog.alone (fun i => env (i + 1)) (k (M.exec (env 0) o w).1) (M.exec (env 0) o w).2

/-- The state after `o` was called by `pid` under `env`. -/
def Config.after (c : Config M) (pid : Nat) (env : M.Env) (o : M.Op) : Config M :=
  let out := M.exec env o c.world
  ⟨out.2, ⟨pid, o, out.1⟩ :: c.trace⟩

@[simp] theorem Config.after_world (c : Config M) (pid : Nat) (env : M.Env) (o : M.Op) :
    (c.after pid env o).world = (M.exec env o c.world).2 := rfl
@[simp] theorem Config.after_trace (c : Config M) (pid : Nat) (env : M.Env) (o : M.Op) :
    (c.after pid env o).trace = ⟨pid, o, (M.exec env o c.world).1⟩ :: c.trace := rfl

namespace System
variable {Req Res : Type} (body : Req → Prog M.toSignature Res)

def init (w : M.World) : System M Req Res := ⟨⟨w, []⟩, []⟩

/-- One action; `none` when the action does not apply. -/
def next (s : System M Req Res) : Action M Req → Option (System M Req Res)
  | .spawn request => some { s with procs := s.procs ++ [⟨request, body request, true⟩] }
  | .step pid env =>
    match s.procs[pid]? with
    | some ⟨request, .call o k, true⟩ =>
      some ⟨s.config.after pid env o, s.procs.set pid ⟨request, k (M.exec env o s.config.world).1, true⟩⟩
    | _ => none
  | .crash pid =>
    match s.procs[pid]? with
    | some p => some { s with procs := s.procs.set pid { p with alive := false } }
    | none => none

/-- Run a list of actions. -/
def run (s : System M Req Res) : List (Action M Req) → Option (System M Req Res)
  | [] => some s
  | a :: actions => (s.next body a).bind fun t => t.run actions

/-- `t` is reached from `s₀` by actions that `allow` permits where they happen. -/
inductive Reach (allow : System M Req Res → Action M Req → Prop) (s₀ : System M Req Res) :
    System M Req Res → Prop
  | refl : Reach allow s₀ s₀
  | next {s t : System M Req Res} (a : Action M Req) (prior : Reach allow s₀ s) (allowed : allow s a)
      (taken : s.next body a = some t) : Reach allow s₀ t

end System

/-- The operation process `pid` calls next. -/
def System.Calling {Req Res : Type} (s : System M Req Res) (pid : Nat) (o : M.Op) : Prop :=
  ∃ request k, s.procs[pid]? = some ⟨request, .call o k, true⟩

/-- The process has a call to make. -/
def System.Busy {Req Res : Type} (s : System M Req Res) (pid : Nat) : Prop := ∃ o, s.Calling pid o

theorem System.Calling.unique {Req Res : Type} {s : System M Req Res} {pid : Nat} {o o' : M.Op} (h : s.Calling pid o)
    (h' : s.Calling pid o') : o' = o := by
  obtain ⟨request, k, hp⟩ := h
  obtain ⟨request', k', hp'⟩ := h'
  rw [hp] at hp'
  cases hp'
  rfl

theorem System.Calling.alive {Req Res : Type} {s : System M Req Res} {pid : Nat} {o : M.Op} (h : s.Calling pid o) :
    (s.procs.map (·.alive))[pid]? = some true := by
  obtain ⟨request, k, hp⟩ := h
  simp [hp]

section Lookup
variable {α : Type} {l : List α} {a x : α} {i j : Nat}

theorem lookup_append (h : (l ++ [a])[i]? = some x) : l[i]? = some x ∨ i = l.length ∧ x = a := by
  rcases Nat.lt_trichotomy i l.length with hlt | heq | hgt
  · exact Or.inl (by simpa [List.getElem?_append, hlt] using h)
  · subst heq
    rw [List.getElem?_concat_length] at h
    exact Or.inr ⟨rfl, (Option.some.inj h).symm⟩
  · rw [List.getElem?_eq_none (by simp; omega)] at h
    cases h

theorem lookup_set (h : (l.set j a)[i]? = some x) : i = j ∧ x = a ∨ i ≠ j ∧ l[i]? = some x := by
  by_cases same : i = j
  · subst same
    have hlt : i < l.length := by simpa using (List.getElem?_eq_some_iff.mp h).1
    rw [List.getElem?_set_self hlt] at h
    exact Or.inl ⟨rfl, (Option.some.inj h).symm⟩
  · rw [List.getElem?_set_ne (Ne.symm same)] at h
    exact Or.inr ⟨same, h⟩

end Lookup

section Steps
variable {Req Res : Type} {body : Req → Prog M.toSignature Res} {s t : System M Req Res}

/-- What an action can do, case by case. -/
theorem System.next_cases {a : Action M Req} (h : s.next body a = some t) :
    (∃ request, a = .spawn request ∧ t = ⟨s.config, s.procs ++ [⟨request, body request, true⟩]⟩) ∨
    (∃ pid env request o k, a = .step pid env ∧ s.procs[pid]? = some ⟨request, .call o k, true⟩ ∧
      t = ⟨s.config.after pid env o, s.procs.set pid ⟨request, k (M.exec env o s.config.world).1, true⟩⟩) ∨
    (∃ pid p, a = .crash pid ∧ s.procs[pid]? = some p ∧
      t = ⟨s.config, s.procs.set pid { p with alive := false }⟩) := by
  cases a with
  | spawn request => exact Or.inl ⟨request, rfl, (Option.some.inj h).symm⟩
  | step pid env =>
    simp only [System.next] at h
    split at h
    · rename_i request o k hp
      exact Or.inr (Or.inl ⟨pid, env, request, o, k, rfl, hp, (Option.some.inj h).symm⟩)
    · cases h
  | crash pid =>
    simp only [System.next] at h
    split at h
    · rename_i p hp
      exact Or.inr (Or.inr ⟨pid, p, rfl, hp, (Option.some.inj h).symm⟩)
    · cases h

/-- A process that is calling an operation can take its step. -/
theorem System.next_step {pid : Nat} {request : Req} {o : M.Op} {k : M.Answer o → Prog M.toSignature Res}
    (hp : s.procs[pid]? = some ⟨request, .call o k, true⟩) (env : M.Env) : s.next body (.step pid env) =
      some ⟨s.config.after pid env o, s.procs.set pid ⟨request, k (M.exec env o s.config.world).1, true⟩⟩ := by
  simp only [System.next, hp]

/-- A run that starts with a step of a process. -/
theorem System.run_step {pid : Nat} {request : Req} {o : M.Op} {k : M.Answer o → Prog M.toSignature Res} {env : M.Env}
    {rest : List (Action M Req)} (hp : s.procs[pid]? = some ⟨request, .call o k, true⟩)
    (h : s.run body (.step pid env :: rest) = some t) : ∃ u : System M Req Res, u.config = s.config.after pid env o ∧
      u.procs[pid]? = some ⟨request, k (M.exec env o s.config.world).1, true⟩ ∧ u.run body rest = some t := by
  rw [System.run, System.next_step hp] at h
  exact ⟨_, rfl, by simp [(List.getElem?_eq_some_iff.mp hp).1], h⟩

/-- The requests that were started, in their order. -/
def System.requests (s : System M Req Res) : List Req := s.procs.map (·.request)

theorem System.requests_at {pid : Nat} {p : Process M Req Res} (hp : s.procs[pid]? = some p) :
    s.requests[pid]? = some p.request := by
  rw [System.requests, List.getElem?_map, hp]
  rfl

/-- Serving a request does not change it. -/
theorem System.next_requests {a : Action M Req} (h : s.next body a = some t) :
    (∃ request, a = .spawn request ∧ t.requests = s.requests ++ [request]) ∨ t.requests = s.requests := by
  have stored : ∀ pid p, s.procs[pid]? = some p →
      (s.procs.map (·.request)).set pid p.request = s.procs.map (·.request) := by
    intro pid p hp
    refine List.ext_getElem? fun i => ?_
    rw [List.getElem?_set]
    split
    · rename_i same
      subst same
      rw [List.getElem?_map, hp, if_pos (by simpa using (List.getElem?_eq_some_iff.mp hp).1)]
      rfl
    · rfl
  unfold System.requests
  rcases System.next_cases h with ⟨request, rfl, rfl⟩ | ⟨pid, env, request, o, k, -, hp, rfl⟩ | ⟨pid, p, -, hp, rfl⟩
  · exact Or.inl ⟨request, rfl, by simp⟩
  · refine Or.inr ?_
    have same := stored pid _ hp
    rw [List.map_set]
    exact same
  · refine Or.inr ?_
    have same := stored pid _ hp
    rw [List.map_set]
    exact same

theorem System.Reach.trans {allow : System M Req Res → Action M Req → Prop} {s₀ s₁ s₂ : System M Req Res}
    (h₁ : System.Reach body allow s₀ s₁) (h₂ : System.Reach body allow s₁ s₂) :
    System.Reach body allow s₀ s₂ := by
  induction h₂ with
  | refl => exact h₁
  | next a _ allowed taken ih => exact .next a ih allowed taken

theorem System.Reach.mono {allow allow' : System M Req Res → Action M Req → Prop}
    (h : ∀ s a, allow s a → allow' s a) {s₀ s₁ : System M Req Res} (r : System.Reach body allow s₀ s₁) :
    System.Reach body allow' s₀ s₁ := by
  induction r with
  | refl => exact .refl
  | next a _ allowed taken ih => exact .next a ih (h _ a allowed) taken

/-- A run of permitted actions reaches its last state. -/
theorem System.reach_of_run {allow : System M Req Res → Action M Req → Prop} {actions : List (Action M Req)}
    (permitted : ∀ a ∈ actions, ∀ s, allow s a) {s₀ s : System M Req Res} (h : s₀.run body actions = some s) :
    System.Reach body allow s₀ s := by
  induction actions generalizing s₀ with
  | nil =>
    cases h
    exact .refl
  | cons a actions ih =>
    obtain ⟨u, hu, hs⟩ := Option.bind_eq_some_iff.mp h
    refine System.Reach.trans (.next a .refl (permitted a List.mem_cons_self _) hu) ?_
    exact ih (fun b hb => permitted b (List.mem_cons_of_mem _ hb)) hs

/-- A run goes through the states of its beginnings. -/
theorem System.run_append {before after : List (Action M Req)} :
    s.run body (before ++ after) = (s.run body before).bind fun t => t.run body after := by
  induction before generalizing s with
  | nil => rfl
  | cons a before ih =>
    simp only [List.cons_append, System.run]
    cases s.next body a with
    | none => rfl
    | some u => exact ih

/-- A trace only grows. -/
theorem System.run_trace {actions : List (Action M Req)} (h : s.run body actions = some t) :
    s.config.trace <:+ t.config.trace := by
  induction actions generalizing s with
  | nil =>
    cases h
    exact List.suffix_refl _
  | cons a actions ih =>
    obtain ⟨u, taken, rest⟩ := Option.bind_eq_some_iff.mp h
    refine List.IsSuffix.trans ?_ (ih rest)
    rcases System.next_cases taken with ⟨_, -, rfl⟩ | ⟨_, _, _, _, _, -, -, rfl⟩ | ⟨_, _, -, -, rfl⟩
    · exact List.suffix_refl _
    · exact List.suffix_cons _ _
    · exact List.suffix_refl _

/-- Run a list of actions, each checked where it happens. -/
def System.runChecked (body : Req → Prog M.toSignature Res) (ok : System M Req Res → Action M Req → Bool)
    (s : System M Req Res) : List (Action M Req) → Option (System M Req Res)
  | [] => some s
  | a :: actions => if ok s a then (s.next body a).bind fun t => t.runChecked body ok actions else none

theorem System.reach_of_checked {allow : System M Req Res → Action M Req → Prop}
    {ok : System M Req Res → Action M Req → Bool} {actions : List (Action M Req)}
    (sound : ∀ s, ∀ a ∈ actions, ok s a = true → allow s a) {s₀ s : System M Req Res}
    (h : s₀.runChecked body ok actions = some s) : System.Reach body allow s₀ s := by
  induction actions generalizing s₀ with
  | nil =>
    cases h
    exact .refl
  | cons a actions ih =>
    unfold System.runChecked at h
    split at h
    · rename_i checked
      obtain ⟨u, hu, hs⟩ := Option.bind_eq_some_iff.mp h
      refine System.Reach.trans (.next a .refl (sound _ a List.mem_cons_self checked) hu) ?_
      exact ih (fun s b hb => sound s b (List.mem_cons_of_mem _ hb)) hs
    · cases h

/-- Something kept by every permitted action holds in every state reached. -/
theorem System.Reach.invariant {allow : System M Req Res → Action M Req → Prop} {s₀ : System M Req Res}
    (I : System M Req Res → Prop) (init : I s₀)
    (step : ∀ s t a, System.Reach body allow s₀ s → I s → allow s a → s.next body a = some t → I t)
    (h : System.Reach body allow s₀ s) : I s := by
  induction h with
  | refl => exact init
  | next a prior allowed taken ih => exact step _ _ a prior ih allowed taken

theorem System.Reach.requests_prefix {allow : System M Req Res → Action M Req → Prop} {s₀ : System M Req Res}
    (h : System.Reach body allow s₀ s) : s₀.requests <+: s.requests := by
  refine h.invariant (fun s => s₀.requests <+: s.requests) (List.prefix_refl _) ?_
  intro s t a _ grown _ taken
  rcases System.next_requests taken with ⟨request, -, more⟩ | same
  · exact more ▸ grown.trans (List.prefix_append _ _)
  · exact same ▸ grown

/-- A process serves one request all along. -/
theorem System.Reach.same_request {allow : System M Req Res → Action M Req → Prop} {s₀ : System M Req Res}
    (h : System.Reach body allow s₀ s) {pid : Nat} {p q : Process M Req Res} (hp : s₀.procs[pid]? = some p)
    (hq : s.procs[pid]? = some q) : q.request = p.request := by
  have before := System.requests_at hp
  have after := System.requests_at hq
  rw [List.prefix_iff_getElem?.1 h.requests_prefix pid (List.getElem?_eq_some_iff.1 before).1] at after
  rw [List.getElem?_eq_some_iff] at before
  exact (Option.some.inj after).symm.trans before.2

/-- A run is permitted by what its trace shows of it. -/
theorem System.Reach.restrict {allow allow' : System M Req Res → Action M Req → Prop} {P : M.Op → Prop}
    (permit : ∀ s a, allow s a → (∀ pid env o, a = .step pid env → s.Calling pid o → P o) → allow' s a)
    {s₀ s : System M Req Res} (reach : System.Reach body allow s₀ s) (trace : ∀ e ∈ s.config.trace, P e.op) :
    System.Reach body allow' s₀ s := by
  induction reach with
  | refl => exact .refl
  | next a _ allowed taken ih =>
    rcases System.next_cases taken with ⟨_, rfl, rfl⟩ | ⟨pid, env, request, o, k, rfl, hp, rfl⟩ | ⟨_, _, rfl, -, rfl⟩
    · exact .next _ (ih trace) (permit _ _ allowed fun _ _ _ he => by cases he) taken
    · obtain ⟨here, before⟩ := List.forall_mem_cons.1 trace
      refine .next _ (ih before) (permit _ _ allowed fun pid' env' o' he calling => ?_) taken
      cases he
      obtain ⟨request', k', hp'⟩ := calling
      rw [hp] at hp'
      cases hp'
      exact here
    · exact .next _ (ih trace) (permit _ _ allowed fun _ _ _ he => by cases he) taken

/-- A call in the trace was made by a process of the system. -/
theorem System.Reach.pid_lt {allow : System M Req Res → Action M Req → Prop} {w : M.World}
    (h : System.Reach body allow (System.init w) s) : ∀ e ∈ s.config.trace, e.pid < s.procs.length := by
  refine h.invariant (fun s => ∀ e ∈ s.config.trace, e.pid < s.procs.length) (fun e he => by cases he) ?_
  intro s t a _ ih _ taken e he
  rcases System.next_cases taken with ⟨_, -, rfl⟩ | ⟨pid, env, _, o, _, -, hp, rfl⟩ | ⟨_, _, -, -, rfl⟩
  · have := ih e he
    simp only [List.length_append, List.length_cons, List.length_nil]
    omega
  · simp only [List.length_set]
    rcases List.mem_cons.mp he with rfl | he
    · exact (List.getElem?_eq_some_iff.mp hp).1
    · exact ih e he
  · simpa using ih e he

end Steps
end Conc
