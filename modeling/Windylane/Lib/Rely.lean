import Mathlib.Logic.Relation
import Windylane.Lib.System

/-! Rely–guarantee reasoning about one program of a system. `wp` asks of a program that each call it makes,
    in any state the other processes can have left (`rely`), does what the process guarantees (`guar`), and
    that it ends as `Q` says. Knowledge a process gained earlier survives exactly when it is kept along
    `rely`, so `wp` itself is kept along `rely` (`wp_mono`).

    `System.Reach.sound` puts the processes together: when every program meets its `wp` and the guarantees
    of each process are within what the others rely on, the invariant holds in every state reached, and
    every process still meets its `wp` there.

    A `Discipline` says which operation a process may call in which state. Its processes guarantee to keep to
    it and rely on the others to do so, and what no call within the discipline breaks (`Lasting`) is known for
    good once it is known. -/

namespace Conc

variable {M : Machine}

/-- The terms under which a process runs: the invariant of the states, what the other processes may do,
    what the process may do, and what is known of its steps. -/
structure Terms (M : Machine) where
  inv : Config M → Prop
  rely : Config M → Config M → Prop
  guar : Config M → Config M → Prop
  known : Config M → (o : M.Op) → M.Answer o → Config M → Prop

/-- Relying is a preorder. -/
structure Terms.Lawful (T : Terms M) : Prop where
  refl : ∀ c, T.rely c c
  trans : ∀ {a b c}, T.rely a b → T.rely b c → T.rely a c

def wp {α : Type} (T : Terms M) : Prog M.toSignature α → (Except M.Err α → Config M → Prop) → Config M → Prop
  | .ret a, Q, c => ∀ c', T.rely c c' → T.inv c' → Q (.ok a) c'
  | .fail e, Q, c => ∀ c', T.rely c c' → T.inv c' → Q (.error e) c'
  | .call o k, Q, c => ∀ c', T.rely c c' → T.inv c' → ∀ r c'', T.known c' o r c'' →
      T.guar c' c'' ∧ (T.inv c'' → wp T (k r) Q c'')

section Rules
variable {α β : Type} {T : Terms M} {c : Config M} {Q : Except M.Err α → Config M → Prop}

theorem wp_mono (L : T.Lawful) {p : Prog M.toSignature α} {c' : Config M} (h : wp T p Q c) (hr : T.rely c c') :
    wp T p Q c' := by
  cases p with
  | ret a => exact fun d hd => h d (L.trans hr hd)
  | fail e => exact fun d hd => h d (L.trans hr hd)
  | call o k => exact fun d hd => h d (L.trans hr hd)

theorem wp_imp {Q' : Except M.Err α → Config M → Prop} (hQ : ∀ r c, T.inv c → Q r c → Q' r c) :
    ∀ {p : Prog M.toSignature α} {c : Config M}, wp T p Q c → wp T p Q' c
  | .ret _, _, h => fun d hd hi => hQ _ _ hi (h d hd hi)
  | .fail _, _, h => fun d hd hi => hQ _ _ hi (h d hd hi)
  | .call _ _, _, h => fun d hd hi r d' hk =>
      ⟨(h d hd hi r d' hk).1, fun hi' => wp_imp hQ ((h d hd hi r d' hk).2 hi')⟩

/-- A sequence ends as `Q` says when its first part ends where the second part does. -/
theorem wp_bind {Q : Except M.Err β → Config M → Prop} {f : α → Prog M.toSignature β} :
    ∀ {p : Prog M.toSignature α} {c : Config M},
      wp T p (fun r d => match r with
        | .ok a => wp T (f a) Q d
        | .error e => Q (.error e) d) c → (T.Lawful) → T.inv c → wp T (p >>= f) Q c
  | .ret _, c, h, L, hi => h c (L.refl c) hi
  | .fail _, _, h, _, _ => h
  | .call _ _, _, h, L, _ => fun d hd hi r d' hk =>
      ⟨(h d hd hi r d' hk).1, fun hi' => wp_bind ((h d hd hi r d' hk).2 hi') L hi'⟩

/-- What `p` ends with, under the invariant, carries the rest. -/
theorem wp_seq {Q : Except M.Err β → Config M → Prop} {R : Except M.Err α → Config M → Prop}
    {f : α → Prog M.toSignature β} {p : Prog M.toSignature α} (L : T.Lawful) (hi : T.inv c) (hp : wp T p R c)
    (hf : ∀ a d, T.inv d → R (.ok a) d → wp T (f a) Q d) (he : ∀ e d, T.inv d → R (.error e) d → Q (.error e) d) :
    wp T (p >>= f) Q c := by
  refine wp_bind (wp_imp (fun r d hd hr => ?_) hp) L hi
  cases r with
  | ok a => exact hf a d hd hr
  | error e => exact he e d hd hr

/-- A failure that is caught is an answer. -/
theorem wp_catched {Q : Except M.Err (Except M.Err α) → Config M → Prop} :
    ∀ {p : Prog M.toSignature α} {c : Config M}, wp T p (fun r d => Q (.ok r) d) c → wp T p.catched Q c
  | .ret _, _, h => h
  | .fail _, _, h => h
  | .call _ _, _, h => fun d hd hi r d' hk =>
      ⟨(h d hd hi r d' hk).1, fun hi' => wp_catched ((h d hd hi r d' hk).2 hi')⟩

end Rules

section Sound
variable {Req Res : Type} {body : Req → Prog M.toSignature Res} {allow : System M Req Res → Action M Req → Prop}

/-- Every live process meets its `wp`. -/
def System.Meets (T : Req → Nat → Terms M) (Q : Req → Except M.Err Res → Nat → Config M → Prop)
    (s : System M Req Res) : Prop :=
  ∀ pid p, s.procs[pid]? = some p → p.alive = true →
    wp (T p.request pid) p.prog (fun r c => Q p.request r pid c) s.config

/-- Processes that each meet their terms, each guaranteeing what the others that live rely on, keep the
    invariant along every run. -/
theorem System.Reach.sound (T : Req → Nat → Terms M) (Q : Req → Except M.Err Res → Nat → Config M → Prop)
    (inv : Config M → Prop) (hinv : ∀ request pid, (T request pid).inv = inv)
    (L : ∀ request pid, (T request pid).Lawful) {w : M.World} (init : inv ⟨w, []⟩)
    (known : ∀ s pid env request o k, System.Reach body allow (System.init w) s → allow s (.step pid env) →
      s.procs[pid]? = some ⟨request, .call o k, true⟩ → inv s.config →
      (T request pid).known s.config o (M.exec env o s.config.world).1 (s.config.after pid env o))
    (guar : ∀ s pid env request o k, System.Reach body allow (System.init w) s → allow s (.step pid env) →
      s.procs[pid]? = some ⟨request, .call o k, true⟩ → inv s.config →
      (T request pid).guar s.config (s.config.after pid env o) → inv (s.config.after pid env o) ∧
        ∀ other p, other ≠ pid → s.procs[other]? = some p → p.alive = true →
          (T p.request other).rely s.config (s.config.after pid env o))
    (spawn : ∀ s request, System.Reach body allow (System.init w) s → allow s (.spawn request) → inv s.config →
      (∀ e ∈ s.config.trace, e.pid < s.procs.length) →
      wp (T request s.procs.length) (body request) (fun r c => Q request r s.procs.length c) s.config)
    {s : System M Req Res} (h : System.Reach body allow (System.init w) s) :
    inv s.config ∧ s.Meets T Q := by
  refine h.invariant (fun s => inv s.config ∧ s.Meets T Q) ⟨init, fun pid p hp => by simp [System.init] at hp⟩ ?_
  rintro s t a prior ⟨hi, meets⟩ allowed taken
  rcases System.next_cases taken with ⟨request, rfl, rfl⟩ | ⟨pid, env, request, o, k, rfl, hp, rfl⟩ |
      ⟨pid, p, rfl, hp, rfl⟩
  · refine ⟨hi, fun pid p hp alive => ?_⟩
    rcases lookup_append hp with before | ⟨rfl, rfl⟩
    · exact meets pid p before alive
    · exact spawn s request prior allowed hi prior.pid_lt
  · have hk := known s pid env request o k prior allowed hp hi
    obtain ⟨hg, hn⟩ := meets pid _ hp rfl s.config ((L request pid).refl _) (hinv request pid ▸ hi) _ _ hk
    obtain ⟨hi', others⟩ := guar s pid env request o k prior allowed hp hi hg
    refine ⟨hi', fun q p hq alive => ?_⟩
    rcases lookup_set hq with ⟨rfl, rfl⟩ | ⟨ne, hq⟩
    · exact hn (hinv request q ▸ hi')
    · exact wp_mono (L p.request q) (meets q p hq alive) (others q p ne hq alive)
  · refine ⟨hi, fun q p' hq alive => ?_⟩
    rcases lookup_set hq with ⟨rfl, rfl⟩ | ⟨-, hq⟩
    · cases alive
    · exact meets q p' hq alive

end Sound

/-! ### Disciplines -/

/-- Which operation process `pid` may call in a state (`may`), and what a live process can take for granted of
    the steps of the system (`granted`). -/
structure Discipline (M : Machine) where
  inv : Config M → Prop
  may : Nat → Config M → M.Op → Prop
  granted : Nat → Config M → M.Op → M.Env → Prop

namespace Discipline
variable (D : Discipline M)

/-- A step of `pid` within the discipline keeps the invariant. -/
def Sound : Prop := ∀ pid c o env, D.inv c → D.may pid c o → D.granted pid c o env → D.inv (c.after pid env o)

/-- A step of another process. -/
inductive Other (pid : Nat) : Config M → Config M → Prop
  | step {c : Config M} (other : Nat) (o : M.Op) (env : M.Env) (ne : other ≠ pid) (hi : D.inv c)
      (may : D.may other c o) (granted : D.granted pid c o env) : Other pid c (c.after other env o)

/-- The terms of process `pid`, which also promises `own` of every call. -/
def terms (own : Config M → M.Op → Prop) (pid : Nat) : Terms M where
  inv := D.inv
  rely := Relation.ReflTransGen (D.Other pid)
  guar := fun c c' => ∃ o env, D.may pid c o ∧ own c o ∧ D.granted pid c o env ∧ c' = c.after pid env o
  known := fun c o r c' => ∃ env, D.granted pid c o env ∧ r = (M.exec env o c.world).1 ∧ c' = c.after pid env o

/-- `P` survives every step within the discipline, of any process. -/
def Lasting (pid : Nat) (P : Config M → Prop) : Prop :=
  ∀ actor c o env, D.inv c → D.may actor c o → D.granted pid c o env → P c → P (c.after actor env o)

variable {D} {own : Config M → M.Op → Prop} {pid : Nat} {P : Config M → Prop} {c : Config M} {α : Type}
  {Q : Except M.Err α → Config M → Prop}

theorem lawful : (D.terms own pid).Lawful where
  refl := fun _ => .refl
  trans := fun h₁ h₂ => Relation.ReflTransGen.trans h₁ h₂

/-- What no other process breaks survives any time the others take. -/
theorem stable (h : ∀ c c', D.Other pid c c' → P c → P c') {c c' : Config M} (hr : (D.terms own pid).rely c c')
    (hc : P c) : P c' := by
  induction hr with
  | refl => exact hc
  | tail _ step ih => exact h _ _ step ih

theorem Lasting.stable (h : D.Lasting pid P) {c c' : Config M} (hr : (D.terms own pid).rely c c') (hc : P c) :
    P c' :=
  Discipline.stable (fun _ _ step hc => by cases step with
    | step other o env _ hi may granted => exact h other _ o env hi may granted hc) hr hc

theorem Lasting.and {P' : Config M → Prop} (h : D.Lasting pid P) (h' : D.Lasting pid P') :
    D.Lasting pid fun c => P c ∧ P' c :=
  fun actor c o env hi may granted hc => ⟨h actor c o env hi may granted hc.1, h' actor c o env hi may granted hc.2⟩

theorem lasting_const (p : Prop) : D.Lasting pid fun _ => p := fun _ _ _ _ _ _ _ hp => hp

/-- One call: it is within the discipline, and the rest follows from the state after it. -/
theorem wp_call {o : M.Op} {k : M.Answer o → Prog M.toSignature α}
    (h : ∀ c', (D.terms own pid).rely c c' → D.inv c' → ∀ env, D.granted pid c' o env →
      D.may pid c' o ∧ own c' o ∧ (D.inv (c'.after pid env o) →
        wp (D.terms own pid) (k (M.exec env o c'.world).1) Q (c'.after pid env o))) :
    wp (D.terms own pid) (.call o k) Q c := by
  rintro c' hr hi r c'' ⟨env, granted, rfl, rfl⟩
  obtain ⟨may, mine, rest⟩ := h c' hr hi env granted
  exact ⟨⟨o, env, may, mine, granted, rfl⟩, rest⟩

/-- One call with lasting knowledge `P`. -/
theorem wp_call_lasting (hP : D.Lasting pid P) (hc : P c) {o : M.Op} {k : M.Answer o → Prog M.toSignature α}
    (hk : ∀ c', D.inv c' → P c' → D.may pid c' o ∧ own c' o)
    (h : ∀ c' env, D.inv c' → P c' → D.granted pid c' o env → D.inv (c'.after pid env o) → P (c'.after pid env o) →
      wp (D.terms own pid) (k (M.exec env o c'.world).1) Q (c'.after pid env o)) :
    wp (D.terms own pid) (.call o k) Q c := by
  refine wp_call fun c' hr hi env granted => ?_
  have hc' := hP.stable hr hc
  obtain ⟨may, mine⟩ := hk c' hi hc'
  exact ⟨may, mine, fun hi' => h c' env hi hc' granted hi' (hP pid c' o env hi may granted hc')⟩

/-- Call an operation and go on with its response, or fail with what lasts. -/
theorem wp_perform (hP : D.Lasting pid P) (hc : P c) {o : M.Op} {f : M.Resp o → Prog M.toSignature α}
    (hk : ∀ c', D.inv c' → P c' → D.may pid c' o ∧ own c' o) (he : ∀ e c', D.inv c' → P c' → Q (.error e) c')
    (h : ∀ c' env a, D.inv c' → P c' → D.granted pid c' o env → D.inv (c'.after pid env o) →
      P (c'.after pid env o) → (M.exec env o c'.world).1 = .ok a →
      wp (D.terms own pid) (f a) Q (c'.after pid env o)) :
    wp (D.terms own pid) (Prog.perform o >>= f) Q c := by
  refine wp_call_lasting hP hc hk fun c' env hi hc' granted hi' hc'' => ?_
  cases hr : (M.exec env o c'.world).1 with
  | ok a => exact h c' env a hi hc' granted hi' hc'' hr
  | error e => exact fun d hd hi => he e d hi (hP.stable hd hc'')

/-- Call an operation and go on with its answer. -/
theorem wp_attempt (hP : D.Lasting pid P) (hc : P c) {o : M.Op} {f : M.Answer o → Prog M.toSignature α}
    (hk : ∀ c', D.inv c' → P c' → D.may pid c' o ∧ own c' o)
    (h : ∀ c' env, D.inv c' → P c' → D.granted pid c' o env → D.inv (c'.after pid env o) →
      P (c'.after pid env o) → wp (D.terms own pid) (f (M.exec env o c'.world).1) Q (c'.after pid env o)) :
    wp (D.terms own pid) (Prog.attempt o >>= f) Q c :=
  wp_call_lasting hP hc hk h

/-- A program whose calls are all within the discipline, and of which none breaks `P`. -/
theorem wp_calls (others : ∀ c c', D.Other pid c c' → P c → P c') {A : M.Op → Prop}
    (mine : ∀ o, A o → ∀ c env, D.inv c → P c → D.granted pid c o env →
      D.may pid c o ∧ own c o ∧ P (c.after pid env o)) :
    ∀ {p : Prog M.toSignature α} {c : Config M}, P c → p.Calls A →
      wp (D.terms own pid) p (fun _ c' => P c') c
  | .ret _, _, hc, _ => fun _ hr _ => stable others hr hc
  | .fail _, _, hc, _ => fun _ hr _ => stable others hr hc
  | .call o _, _, hc, hp => wp_call fun c' hr hi env granted => by
      obtain ⟨may, own, kept⟩ := mine o hp.1 c' env hi (stable others hr hc) granted
      exact ⟨may, own, fun _ => wp_calls others mine kept (hp.2 _)⟩

/-- The same with lasting knowledge. -/
theorem wp_calls_lasting (hP : D.Lasting pid P) {A : M.Op → Prop}
    (hA : ∀ o, A o → ∀ c, D.inv c → P c → D.may pid c o ∧ own c o) {p : Prog M.toSignature α} (hc : P c)
    (hp : p.Calls A) : wp (D.terms own pid) p (fun _ c' => P c') c := by
  refine wp_calls ?_ ?_ hc hp
  · rintro _ _ ⟨other, o, env, _, hi, may, granted⟩ hc
    exact hP other _ o env hi may granted hc
  · intro o ho c env hi hc granted
    obtain ⟨may, mine⟩ := hA o ho c hi hc
    exact ⟨may, mine, hP pid c o env hi may granted hc⟩

/-- A program that may call anything while `P` is known ends as its answers say. -/
theorem wp_ends (hP : D.Lasting pid P) (free : ∀ o c, D.inv c → P c → D.may pid c o ∧ own c o)
    {R : (o : M.Op) → M.Answer o → Prop} (answers : ∀ c o env, D.granted pid c o env → R o (M.exec env o c.world).1)
    {φ : Except M.Err α → Prop} :
    ∀ {p : Prog M.toSignature α} {c : Config M}, P c → p.Ends R φ → wp (D.terms own pid) p (fun r c' => P c' ∧ φ r) c
  | .ret _, _, hc, hp => fun _ hr _ => ⟨hP.stable hr hc, hp⟩
  | .fail _, _, hc, hp => fun _ hr _ => ⟨hP.stable hr hc, hp⟩
  | .call o _, _, hc, hp => wp_call_lasting hP hc (free o) fun c' env _ _ granted _ hc' =>
      wp_ends hP free answers hc' (hp _ (answers c' o env granted))

end Discipline

/-- Processes that keep to a discipline keep its invariant along every run. -/
theorem System.Reach.disciplined {Req Res : Type} {body : Req → Prog M.toSignature Res}
    {allow : System M Req Res → Action M Req → Prop} {D : Discipline M} (sound : D.Sound)
    (own : Req → Config M → M.Op → Prop) (Q : Req → Except M.Err Res → Nat → Config M → Prop) {w : M.World}
    (init : D.inv ⟨w, []⟩)
    (grant : ∀ s pid env o, System.Reach body allow (System.init w) s → allow s (.step pid env) → s.Calling pid o →
      D.inv s.config → ∀ other p, s.procs[other]? = some p → p.alive = true → D.granted other s.config o env)
    (spawn : ∀ s request, System.Reach body allow (System.init w) s → allow s (.spawn request) → D.inv s.config →
      (∀ e ∈ s.config.trace, e.pid < s.procs.length) →
      wp (D.terms (own request) s.procs.length) (body request) (fun r c => Q request r s.procs.length c) s.config)
    {s : System M Req Res} (h : System.Reach body allow (System.init w) s) :
    D.inv s.config ∧ s.Meets (fun request pid => D.terms (own request) pid) Q := by
  refine System.Reach.sound _ Q D.inv (fun _ _ => rfl) (fun _ _ => Discipline.lawful) init ?_ ?_ spawn h
  · intro s pid env request o k prior allowed hp hi
    exact ⟨env, grant s pid env o prior allowed ⟨request, k, hp⟩ hi pid _ hp rfl, rfl, rfl⟩
  · rintro s pid env request o k prior allowed hp hi ⟨o', env', may, -, granted, same⟩
    -- the event on top of the trace names the operation
    have ho : o = o' := congrArg Event.op (List.cons.inj (congrArg Config.trace same)).1
    subst ho
    have granted := grant s pid env o prior allowed ⟨request, k, hp⟩ hi
    refine ⟨sound pid s.config o env hi may (granted pid _ hp rfl), fun other p ne hq alive => ?_⟩
    exact .single (.step pid o env ne.symm hi may (granted other p hq alive))

/-- A step that is taken is within the discipline, and keeps what its process promises. -/
theorem System.Meets.may {Req Res : Type} (D : Discipline M) (own : Req → Config M → M.Op → Prop)
    {Q : Req → Except M.Err Res → Nat → Config M → Prop} {s : System M Req Res}
    (h : s.Meets (fun request pid => D.terms (own request) pid) Q) (hi : D.inv s.config) {pid : Nat} {request : Req}
    {o : M.Op} {k : M.Answer o → Prog M.toSignature Res} (hp : s.procs[pid]? = some ⟨request, .call o k, true⟩)
    (env : M.Env) (granted : D.granted pid s.config o env) : D.may pid s.config o ∧ own request s.config o := by
  obtain ⟨⟨o', env', may, mine, -, same⟩, -⟩ := h pid _ hp rfl s.config .refl hi _ _ ⟨env, granted, rfl, rfl⟩
  have ho : o = o' := congrArg Event.op (List.cons.inj (congrArg Config.trace same)).1
  subst ho
  exact ⟨may, mine⟩

end Conc
