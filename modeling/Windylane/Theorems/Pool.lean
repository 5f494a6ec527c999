import Windylane.Lib.System
import Windylane.Pool

/-! Cancelling what a pool executes. The `inFlight` map has one entry for a task. As long as a goroutine registers a task
    only when no other goroutine is at work on it, the entry is its own until it deletes it, so a heartbeat loop and a
    forced shutdown cancel the execution that they mean. -/

namespace Windylane.Pool

open Conc

/-- From storing the entry to deleting it. -/
def Phase.registered : Phase → Bool
  | .claiming | .claimed | .executing | .leaving => true
  | .dispatched | .deleted | .returned => false

/-- The goroutine executes the task that it claimed. -/
def Phase.holds : Phase → Bool
  | .claimed | .executing => true
  | _ => false

def Heartbeat.running : Heartbeat → Bool
  | .waiting | .lost | .cancelling _ => true
  | .idle | .lapsed | .stopped => false

theorem registered_of_holds {phase : Phase} (holds : phase.holds = true) : phase.registered = true := by
  cases phase <;> first | rfl | cases holds

/-! ### Moves -/

/-- What a goroutine does in a move: where it stands, what it is then, and the effect. -/
inductive Moves (g : Nat) (s : State) (p : Goroutine) : Goroutine → Effect → Prop
  | store (phase : p.phase = .dispatched) : Moves g s p { p with phase := .claiming } .store
  | claim (ok : Bool) (phase : p.phase = .claiming) :
      Moves g s p { p with phase := if ok then .claimed else .leaving } .none
  | watch (phase : p.phase = .claimed) : Moves g s p { p with phase := .executing, heartbeat := .waiting } .none
  | finish (phase : p.phase = .executing) : Moves g s p { p with phase := .leaving } .none
  | delete (phase : p.phase = .leaving) : Moves g s p { p with phase := .deleted } .delete
  | release (phase : p.phase = .deleted) : Moves g s p { p with phase := .returned } (.cancel g)
  | beat : Moves g s p p .none
  | lose (beats : p.heartbeat = .waiting) : Moves g s p { p with heartbeat := .lost } .none
  | done (beats : p.heartbeat = .waiting) : Moves g s p { p with heartbeat := .stopped } .none
  | load (c : Nat) (beats : p.heartbeat = .lost) (entry : s.inFlight p.task = some c) :
      Moves g s p { p with heartbeat := .cancelling c } .none
  | miss (beats : p.heartbeat = .lost) (entry : s.inFlight p.task = none) :
      Moves g s p { p with heartbeat := .lapsed } .none
  | cancel (c : Nat) (beats : p.heartbeat = .cancelling c) : Moves g s p { p with heartbeat := .lapsed } (.cancel c)

section Moves
variable {g : Nat} {s : State} {p q : Goroutine} {e : Effect}

theorem process_moves {m : ProcessMove} (moved : p.process g m = some (q, e)) : Moves g s p q e := by
  unfold Goroutine.process at moved
  split at moved
  all_goals cases moved
  · exact .store ‹_›
  · exact .claim true ‹_›
  · exact .claim false ‹_›
  · exact .watch ‹_›
  · exact .finish ‹_›
  · exact .delete ‹_›
  · exact .release ‹_›

theorem beats_moves {m : HeartbeatMove} (moved : p.beats (s.inFlight p.task) (s.cancelled g) m = some (q, e)) :
    Moves g s p q e := by
  unfold Goroutine.beats at moved
  split at moved
  · cases moved
    exact .beat
  · cases moved
    exact .lose ‹_›
  · split at moved
    · cases moved
      exact .done ‹_›
    · cases moved
  · split at moved
    · cases moved
      exact .load _ ‹_› ‹_›
    · cases moved
      exact .miss ‹_› ‹_›
  · cases moved
    exact .cancel _ ‹_›
  · cases moved

theorem Moves.task (moved : Moves g s p q e) : q.task = p.task := by cases moved <;> rfl

end Moves

/-- What `gracefulDrain` does in a step. -/
inductive Drains (s : State) : State → Prop
  | stop (running : s.drain = .running) : Drains s { s with drain := .waiting }
  | force (waiting : s.drain = .waiting) : Drains s { s with drain := .ranging s.keys [] }
  | visit (task : UUID) (c : Nat) (due visited : List UUID) (ranging : s.drain = .ranging due visited)
      (entry : s.inFlight task = some c) :
      Drains s { s.cancel c with drain := .ranging (due.filter (· ≠ task)) (task :: visited) }
  | ranged (visited : List UUID) (ranging : s.drain = .ranging [] visited) : Drains s { s with drain := .forced }
  | drained (ended : s.drain = .waiting ∨ s.drain = .forced) : Drains s { s with drain := .closed }

/-- What a step of the pool can do. -/
theorem next_cases {concurrency : Nat} {s t : State} {a : Step} (taken : next concurrency s a = some t) :
    (∃ task, s.drain = .running ∧ t = { s with goroutines := s.goroutines ++ [⟨task, .dispatched, .idle⟩] }) ∨
    (∃ g p q e, s.goroutines[g]? = some p ∧ Moves g s p q e ∧ (e = .store → a = .process g .store) ∧
      t = s.moved g (q, e)) ∨
    Drains s t := by
  cases a with
  | dispatch task =>
    simp only [next] at taken
    split at taken
    · rename_i running
      exact Or.inl ⟨task, running.1, (Option.some.inj taken).symm⟩
    · cases taken
  | process g m =>
    obtain ⟨p, hp, taken⟩ := Option.bind_eq_some_iff.1 taken
    obtain ⟨⟨q, e⟩, moved, rfl⟩ := Option.map_eq_some_iff.1 taken
    refine Or.inr (Or.inl ⟨g, p, q, e, hp, process_moves moved, ?_, rfl⟩)
    rintro rfl
    unfold Goroutine.process at moved
    split at moved
    all_goals first
      | rfl
      | cases moved
  | heartbeat g m =>
    obtain ⟨p, hp, taken⟩ := Option.bind_eq_some_iff.1 taken
    obtain ⟨⟨q, e⟩, moved, rfl⟩ := Option.map_eq_some_iff.1 taken
    refine Or.inr (Or.inl ⟨g, p, q, e, hp, beats_moves moved, ?_, rfl⟩)
    rintro rfl
    unfold Goroutine.beats at moved
    repeat' split at moved
    all_goals cases moved
  | stop =>
    simp only [next] at taken
    split at taken
    · cases taken
      exact Or.inr (Or.inr (.stop ‹_›))
    · cases taken
  | force =>
    simp only [next] at taken
    split at taken
    · cases taken
      exact Or.inr (Or.inr (.force ‹_›))
    · cases taken
  | visit task =>
    simp only [next] at taken
    split at taken
    · split at taken
      · cases taken
      · cases taken
        exact Or.inr (Or.inr (.visit task _ _ _ ‹_› ‹_›))
    · cases taken
  | ranged =>
    simp only [next] at taken
    split at taken
    · cases taken
      exact Or.inr (Or.inr (.ranged _ ‹_›))
    · cases taken
  | drained =>
    simp only [next] at taken
    split at taken
    · rename_i ended
      cases taken
      exact Or.inr (Or.inr (.drained ended.1))
    · cases taken

section Frame
variable {s t : State} {g : Nat} {q : Goroutine} {e : Effect}

@[simp] theorem moved_goroutines : (s.moved g (q, e)).goroutines = s.goroutines.set g q := by
  cases e <;> rfl

theorem cancel_of_cancelled {c : Nat} (cancelled : s.cancelled g = true) : (s.cancel c).cancelled g = true := by
  simp only [State.cancel, Function.update_apply, cancelled, ite_self]

theorem moved_cancelled {g' : Nat} (cancelled : s.cancelled g' = true) : (s.moved g (q, e)).cancelled g' = true := by
  cases e with
  | cancel c => exact cancel_of_cancelled cancelled
  | _ => exact cancelled

/-- The entries of other tasks stay, and only storing and deleting change that of this one. -/
theorem moved_inFlight {id : UUID} (h : id = q.task → e ≠ .store ∧ e ≠ .delete) :
    (s.moved g (q, e)).inFlight id = s.inFlight id := by
  cases e with
  | none | cancel => rfl
  | store => exact Function.update_of_ne (fun same => (h same).1 rfl) _ _
  | delete => exact Function.update_of_ne (fun same => (h same).2 rfl) _ _

/-- Draining moves no goroutine. -/
theorem Drains.frame (step : Drains s t) : t.goroutines = s.goroutines ∧ t.inFlight = s.inFlight ∧
    ∀ g, s.cancelled g = true → t.cancelled g = true := by
  cases step with
  | visit => exact ⟨rfl, rfl, fun _ => cancel_of_cancelled⟩
  | _ => exact ⟨rfl, rfl, fun _ h => h⟩

end Frame

/-! ### The registry -/

/-- No other goroutine has an entry for the task, or still beats for it. -/
def Unshared (s : State) (g : Nat) (task : UUID) : Prop :=
  ∀ (g' : Nat) (p' : Goroutine), s.goroutines[g']? = some p' → g' ≠ g → p'.task = task →
    p'.phase.registered = false ∧ p'.heartbeat.running = false

/-- A goroutine registers a task only while no other one is at work on it. -/
def Alone (s : State) (a : Step) : Prop :=
  ∀ (g : Nat) (p : Goroutine), a = .process g .store → s.goroutines[g]? = some p → Unshared s g p.task

/-- Every goroutine finds its own cancel function. -/
structure Registry (s : State) : Prop where
  own : ∀ (g : Nat) (p : Goroutine), s.goroutines[g]? = some p → p.phase.registered = true → s.inFlight p.task = some g
  mine : ∀ (g : Nat) (p : Goroutine) (c : Nat), s.goroutines[g]? = some p → p.heartbeat.running = true →
    s.inFlight p.task = some c → c = g
  loaded : ∀ (g : Nat) (p : Goroutine) (c : Nat), s.goroutines[g]? = some p → p.heartbeat = .cancelling c → c = g
  /-- A loop that lost the task has cancelled the execution. -/
  lapsed : ∀ (g : Nat) (p : Goroutine), s.goroutines[g]? = some p → p.heartbeat = .lapsed → p.phase = .executing →
    s.cancelled g = true
  idle : ∀ (g : Nat) (p : Goroutine), s.goroutines[g]? = some p →
    p.phase = .dispatched ∨ p.phase = .claiming ∨ p.phase = .claimed → p.heartbeat = .idle

section Registry
variable {s t : State}

theorem Registry.dispatched (inv : Registry s) (task : UUID) :
    Registry { s with goroutines := s.goroutines ++ [⟨task, .dispatched, .idle⟩] } := by
  refine ⟨fun g p hp reg => ?_, fun g p c hp run entry => ?_, fun g p c hp load => ?_, fun g p hp lapsed exec => ?_,
    fun g p hp phase => ?_⟩
  all_goals rcases lookup_append hp with before | ⟨-, rfl⟩
  · exact inv.own g p before reg
  · cases reg
  · exact inv.mine g p c before run entry
  · cases run
  · exact inv.loaded g p c before load
  · cases load
  · exact inv.lapsed g p before lapsed exec
  · cases lapsed
  · exact inv.idle g p before phase
  · rfl

theorem Registry.drains (inv : Registry s) (step : Drains s t) : Registry t := by
  obtain ⟨goroutines, inFlight, cancelled⟩ := step.frame
  constructor
  · exact goroutines ▸ inFlight ▸ inv.own
  · exact goroutines ▸ inFlight ▸ inv.mine
  · exact goroutines ▸ inv.loaded
  · intro g p hp lapsed exec
    exact cancelled g (inv.lapsed g p (goroutines ▸ hp) lapsed exec)
  · exact goroutines ▸ inv.idle

section Moving
variable {g : Nat} {p q : Goroutine} {e : Effect}

/-- Another goroutine that is registered keeps its entry. -/
theorem Registry.entry_kept (inv : Registry s) (hp : s.goroutines[g]? = some p) (moves : Moves g s p q e)
    (alone : e = .store → Unshared s g p.task) {g' : Nat} {p' : Goroutine} (hp' : s.goroutines[g']? = some p')
    (ne : g' ≠ g) (reg : p'.phase.registered = true) :
    (s.moved g (q, e)).inFlight p'.task = s.inFlight p'.task := by
  refine moved_inFlight fun same => ⟨?_, ?_⟩
  · rintro rfl
    rw [moves.task] at same
    rw [(alone rfl g' p' hp' ne same).1] at reg
    cases reg
  · rintro rfl
    rw [moves.task] at same
    cases moves with
    | delete phase =>
      have other := inv.own g' p' hp' reg
      rw [same, inv.own g p hp (by rw [phase]; rfl)] at other
      exact ne (Option.some.inj other).symm

theorem Registry.moved_own (inv : Registry s) (hp : s.goroutines[g]? = some p) (moves : Moves g s p q e)
    (reg : q.phase.registered = true) : (s.moved g (q, e)).inFlight q.task = some g := by
  cases moves with
  | store => exact Function.update_self ..
  | claim ok phase => exact inv.own g p hp (by rw [phase]; rfl)
  | watch phase => exact inv.own g p hp (by rw [phase]; rfl)
  | finish phase => exact inv.own g p hp (by rw [phase]; rfl)
  | delete | release => cases reg
  | beat | lose | done | load | miss | cancel => exact inv.own g p hp reg

theorem Registry.moved_mine (inv : Registry s) (hp : s.goroutines[g]? = some p) (moves : Moves g s p q e)
    {c : Nat} (run : q.heartbeat.running = true) (entry : (s.moved g (q, e)).inFlight q.task = some c) : c = g := by
  cases moves with
  | store phase =>
    rw [show p.heartbeat = .idle from inv.idle g p hp (Or.inl phase)] at run
    cases run
  | claim | finish | release | beat => exact inv.mine g p c hp run entry
  | watch phase =>
    have own := inv.own g p hp (by rw [phase]; rfl)
    rw [show s.inFlight p.task = some c from entry] at own
    exact Option.some.inj own
  | delete =>
    have gone := (Function.update_self ..).symm.trans entry
    cases gone
  | lose beats => exact inv.mine g p c hp (by rw [beats]; rfl) entry
  | load _ beats _ => exact inv.mine g p c hp (by rw [beats]; rfl) entry
  | done | miss | cancel => cases run

theorem Registry.moved_loaded (inv : Registry s) (hp : s.goroutines[g]? = some p) (moves : Moves g s p q e) {c : Nat}
    (load : q.heartbeat = .cancelling c) : c = g := by
  cases moves with
  | store | claim | finish | delete | release | beat => exact inv.loaded g p c hp load
  | load c' beats entry =>
    cases load
    exact inv.mine g p c hp (by rw [beats]; rfl) entry
  | watch | lose | done | miss | cancel => cases load

theorem Registry.moved_lapsed (inv : Registry s) (hp : s.goroutines[g]? = some p) (moves : Moves g s p q e)
    (lapsed : q.heartbeat = .lapsed) (exec : q.phase = .executing) : (s.moved g (q, e)).cancelled g = true := by
  cases moves with
  | beat => exact inv.lapsed g p hp lapsed exec
  | miss beats entry =>
    -- the entry is there while the task is executed
    have own := inv.own g p hp (by rw [show p.phase = .executing from exec]; rfl)
    rw [entry] at own
    cases own
  | cancel c beats =>
    obtain rfl := inv.loaded g p c hp beats
    exact Function.update_self ..
  | claim ok => cases ok <;> cases exec
  | store | finish | delete | release => cases exec
  | watch | lose | done | load => cases lapsed

theorem Registry.moved_idle (inv : Registry s) (hp : s.goroutines[g]? = some p) (moves : Moves g s p q e)
    (phase : q.phase = .dispatched ∨ q.phase = .claiming ∨ q.phase = .claimed) : q.heartbeat = .idle := by
  cases moves with
  | store before => exact inv.idle g p hp (Or.inl before)
  | claim _ before => exact inv.idle g p hp (Or.inr (Or.inl before))
  | beat => exact inv.idle g p hp phase
  | watch | finish | delete | release => simp at phase
  | lose beats | done beats | load _ beats _ | miss beats _ | cancel _ beats =>
    rw [inv.idle g p hp phase] at beats
    cases beats

theorem Registry.moved (inv : Registry s) (hp : s.goroutines[g]? = some p) (moves : Moves g s p q e)
    (alone : e = .store → Unshared s g p.task) : Registry (s.moved g (q, e)) := by
  refine ⟨fun g' p' hp' reg => ?_, fun g' p' c hp' run entry => ?_, fun g' p' c hp' load => ?_,
    fun g' p' hp' lapsed exec => ?_, fun g' p' hp' phase => ?_⟩
  all_goals
    rw [moved_goroutines] at hp'
    rcases lookup_set hp' with ⟨rfl, rfl⟩ | ⟨ne, before⟩
  · exact inv.moved_own hp moves reg
  · rw [inv.entry_kept hp moves alone before ne reg, inv.own g' p' before reg]
  · exact inv.moved_mine hp moves run entry
  · -- the entry of a loop that beats was not stored now
    refine inv.mine g' p' c before run ?_
    rw [← entry, moved_inFlight fun same => ⟨?_, ?_⟩]
    · rintro rfl
      rw [(alone rfl g' p' before ne (same.trans moves.task)).2] at run
      cases run
    · rintro rfl
      rw [same] at entry
      have gone := (Function.update_self ..).symm.trans entry
      cases gone
  · exact inv.moved_loaded hp moves load
  · exact inv.loaded g' p' c before load
  · exact inv.moved_lapsed hp moves lapsed exec
  · exact moved_cancelled (inv.lapsed g' p' before lapsed exec)
  · exact inv.moved_idle hp moves phase
  · exact inv.idle g' p' before phase

end Moving

variable {concurrency : Nat}

theorem Registry.step {a : Step} (inv : Registry s) (alone : Alone s a) (taken : next concurrency s a = some t) :
    Registry t := by
  rcases next_cases taken with ⟨task, -, rfl⟩ | ⟨g, p, q, e, hp, moves, stores, rfl⟩ | drains
  · exact inv.dispatched task
  · exact inv.moved hp moves fun stored => alone g p (stores stored) hp
  · exact inv.drains drains

theorem registry_run (reach : Steps.Reach (next concurrency) Alone init s) : Registry s := by
  refine reach.invariant Registry ?_ fun s t a _ inv alone taken => inv.step alone taken
  constructor
  all_goals intros; simp_all [init]

/-! ### Forced shutdown -/

/-- The goroutine is cancelled, or its entry is still to be visited. -/
def Awaits (s : State) (g : Nat) (task : UUID) : Prop :=
  s.cancelled g = true ∨ ∃ due visited, s.drain = .ranging due visited ∧ task ∈ due

/-- Since the forced shutdown of `s`, who was registered is cancelled, about to be, or gone. -/
structure Forced (s t : State) : Prop where
  begun : t.drain ≠ .running ∧ t.drain ≠ .waiting
  left : ∀ (g : Nat) (p q : Goroutine), s.goroutines[g]? = some p → p.phase.registered = true →
    t.goroutines[g]? = some q → q.phase ≠ .dispatched ∧ (q.phase.registered = true → Awaits t g q.task)

theorem forced_start (inv : Registry s) : Forced s { s with drain := .ranging s.keys [] } := by
  refine ⟨⟨Drain.noConfusion, Drain.noConfusion⟩, fun g p q hp reg hq => ?_⟩
  obtain rfl : p = q := Option.some.inj (hp.symm.trans hq)
  refine ⟨fun phase => ?_, fun _ => Or.inr ⟨_, _, rfl, ?_⟩⟩
  · rw [phase] at reg
    cases reg
  · refine List.mem_filter.2 ⟨List.mem_map.2 ⟨p, List.mem_of_getElem? hp, rfl⟩, ?_⟩
    rw [inv.own g p hp reg]
    rfl

variable {u : State}

theorem Forced.drains (forced : Forced s t) (inv : Registry t) (step : Drains t u) : Forced s u := by
  obtain ⟨goroutines, -, cancelled⟩ := step.frame
  have waits : ∀ g p q, s.goroutines[g]? = some p → p.phase.registered = true → u.goroutines[g]? = some q →
      q.phase.registered = true → Awaits t g q.task :=
    fun g p q hp reg hq => ((forced.left g p q hp reg (goroutines ▸ hq)).2)
  refine ⟨?_, fun g p q hp reg hq => ⟨(forced.left g p q hp reg (goroutines ▸ hq)).1, fun still => ?_⟩⟩
  · cases step with
    | stop running => exact (forced.begun.1 running).elim
    | _ => exact ⟨Drain.noConfusion, Drain.noConfusion⟩
  · rcases waits g p q hp reg hq still with done | ⟨due, visited, ranging, mem⟩
    · exact Or.inl (cancelled g done)
    · cases step with
      | stop running => exact (forced.begun.1 running).elim
      | force waiting => exact (forced.begun.2 waiting).elim
      | visit task c due' visited' ranging' entry =>
        cases ranging.symm.trans ranging'
        by_cases same : q.task = task
        · -- the entry that is visited is the goroutine's own
          have own := inv.own g q hq still
          rw [same, entry] at own
          cases own
          exact Or.inl (Function.update_self ..)
        · exact Or.inr ⟨_, _, rfl, List.mem_filter.2 ⟨mem, decide_eq_true same⟩⟩
      | ranged visited' ranging' =>
        cases ranging.symm.trans ranging'
        cases mem
      | drained ended =>
        rw [ranging] at ended
        rcases ended with h | h <;> cases h

theorem Forced.moved {g : Nat} {p q : Goroutine} {e : Effect} (forced : Forced s t) (inv : Registry t)
    (hp : t.goroutines[g]? = some p) (moves : Moves g t p q e) : Forced s (t.moved g (q, e)) := by
  have waits : ∀ {g' task}, Awaits t g' task → (e = .delete → task ≠ q.task) → Awaits (t.moved g (q, e)) g' task := by
    rintro g' task (done | ⟨due, visited, ranging, mem⟩) other
    · exact Or.inl (moved_cancelled done)
    · cases e with
      | none | store | cancel => exact Or.inr ⟨due, visited, ranging, mem⟩
      | delete =>
        refine Or.inr ⟨due.filter (· ≠ q.task), visited, ?_, List.mem_filter.2 ⟨mem, decide_eq_true (other rfl)⟩⟩
        simp only [State.moved, State.apply, ranging, Drain.forget]
  refine ⟨?_, fun g' p' q' hp' reg hq' => ?_⟩
  · cases e with
    | none | store | cancel => exact forced.begun
    | delete =>
      obtain ⟨running, waiting⟩ := forced.begun
      simp only [State.moved, State.apply]
      cases drain : t.drain <;> simp_all [Drain.forget]
  · rw [moved_goroutines] at hq'
    rcases lookup_set hq' with ⟨rfl, rfl⟩ | ⟨ne, before⟩
    · obtain ⟨begun, left⟩ := forced.left g' p' p hp' reg hp
      cases moves with
      | store phase => exact (begun phase).elim
      | claim ok phase =>
        refine ⟨by cases ok <;> exact Phase.noConfusion, fun _ => ?_⟩
        exact waits (left (by rw [phase]; rfl)) fun h => by cases h
      | watch phase | finish phase =>
        exact ⟨Phase.noConfusion, fun _ => waits (left (by rw [phase]; rfl)) fun h => by cases h⟩
      | delete | release => exact ⟨Phase.noConfusion, fun still => by cases still⟩
      | beat | lose | done | load | miss | cancel =>
        exact ⟨begun, fun still => waits (left still) fun h => by cases h⟩
    · obtain ⟨begun, left⟩ := forced.left g' p' q' hp' reg before
      refine ⟨begun, fun still => waits (left still) ?_⟩
      rintro rfl same
      cases moves with
      | delete phase =>
        have own := inv.own g' q' before still
        rw [same, inv.own g p hp (by rw [phase]; rfl)] at own
        exact ne (Option.some.inj own).symm

theorem Forced.step {a : Step} (forced : Forced s t) (inv : Registry t) (taken : next concurrency t a = some u) :
    Forced s u := by
  rcases next_cases taken with ⟨_, running, -⟩ | ⟨g, p, q, e, hp, moves, -, rfl⟩ | drains
  · exact (forced.begun.1 running).elim
  · exact forced.moved inv hp moves
  · exact forced.drains inv drains

theorem forced_run (reach : Steps.Reach (next concurrency) Alone init s)
    (forced : next concurrency s .force = some t) (later : Steps.Reach (next concurrency) Alone t u) : Forced s u := by
  have start : t = { s with drain := .ranging s.keys [] } := by
    simp only [next] at forced
    split at forced
    · exact (Option.some.inj forced).symm
    · cases forced
  have began : Steps.Reach (next concurrency) Alone init t := .next .force reach (fun _ _ he => by cases he) forced
  refine later.invariant (Forced s) (start ▸ forced_start (registry_run reach)) ?_
  intro t' u' a prior inv _ taken
  exact inv.step (registry_run (began.trans prior)) taken

/-- While a goroutine executes a task the entry is its own cancel function. A heartbeat loop that loses the task cancels
    this execution and no other, and a forced shutdown cancels every execution that it finds. -/
theorem cancels_its_own (reach : Steps.Reach (next concurrency) Alone init s) :
    (∀ (g : Nat) (p : Goroutine), s.goroutines[g]? = some p → p.phase.holds = true → s.inFlight p.task = some g) ∧
    (∀ g m t g', next concurrency s (.heartbeat g m) = some t → g' ≠ g → t.cancelled g' = s.cancelled g') ∧
    (∀ (g : Nat) (p : Goroutine), s.goroutines[g]? = some p → p.heartbeat = .lapsed → p.phase = .executing →
      s.cancelled g = true) ∧
    ∀ (t u : State) (g : Nat) (p q : Goroutine), next concurrency s .force = some t →
      Steps.Reach (next concurrency) Alone t u → u.drain = .forced → s.goroutines[g]? = some p → p.phase.holds = true →
      u.goroutines[g]? = some q → q.phase.holds = true → u.cancelled g = true := by
  have inv := registry_run reach
  refine ⟨fun g p hp holds => inv.own g p hp (registered_of_holds holds), ?_, inv.lapsed, ?_⟩
  · intro g m t g' taken ne
    obtain ⟨p, hp, taken⟩ := Option.bind_eq_some_iff.1 taken
    obtain ⟨⟨q, e⟩, moved, rfl⟩ := Option.map_eq_some_iff.1 taken
    cases e with
    | none | store | delete => rfl
    | cancel c =>
      obtain rfl : c = g := by
        unfold Goroutine.beats at moved
        repeat' split at moved
        all_goals cases moved
        exact inv.loaded g p c hp ‹_›
      exact Function.update_of_ne ne _ _
  · intro t u g p q forced later ended hp held hq holds
    obtain ⟨-, left⟩ := (forced_run reach forced later).left g p q hp (registered_of_holds held) hq
    rcases left (registered_of_holds holds) with done | ⟨due, visited, ranging, -⟩
    · exact done
    · rw [ended] at ranging
      cases ranging

end Registry

/-! ### Two messages of one task -/

/-- The first goroutine executes the task when a second message of it arrives. -/
def duplicateDelivery : List Step :=
  [.dispatch ⟨7⟩, .process 0 .store, .process 0 (.claim true), .process 0 .watch, .dispatch ⟨7⟩, .process 1 .store]

/-- The claim of the second goroutine is rejected, and it deletes the entry: the first one is cancelled neither when
    it loses the task nor by a forced shutdown. Or else the claim succeeds, and the first one cancels the second. -/
theorem duplicate_uncancelled :
    (∃ s, Steps.run (next 2) init (duplicateDelivery ++ [.process 1 (.claim false), .process 1 .delete,
        .process 1 .release, .heartbeat 0 (.beat false), .heartbeat 0 .load, .stop, .force, .ranged]) = some s ∧
      s.goroutines[0]? = some ⟨⟨7⟩, .executing, .lapsed⟩ ∧ s.inFlight ⟨7⟩ = none ∧ s.drain = .forced ∧
      s.cancelled 0 = false) ∧
    ∃ s, Steps.run (next 2) init (duplicateDelivery ++ [.process 1 (.claim true), .process 1 .watch,
        .heartbeat 0 (.beat false), .heartbeat 0 .load, .heartbeat 0 .cancel]) = some s ∧
      s.goroutines = [⟨⟨7⟩, .executing, .lapsed⟩, ⟨⟨7⟩, .executing, .waiting⟩] ∧
      s.cancelled 0 = false ∧ s.cancelled 1 = true :=
  ⟨⟨_, rfl, rfl, rfl, rfl, rfl⟩, ⟨_, rfl, rfl, rfl, rfl⟩⟩

/-- The condition on a step of a run. -/
def aloneStep (s : State) : Step → Bool
  | .process g .store =>
    (s.goroutines[g]?).all fun p => s.goroutines.zipIdx.all fun (p', g') =>
      g' = g || p'.task ≠ p.task || (!p'.phase.registered && !p'.heartbeat.running)
  | _ => true

theorem alone_of_aloneStep {s : State} {a : Step} (ok : aloneStep s a = true) : Alone s a := by
  rintro g p rfl hp g' p' hp' ne same
  simp only [aloneStep, hp, Option.all_some, List.all_eq_true] at ok
  have other := ok (p', g') (List.mem_zipIdx_iff_getElem?.2 hp')
  simpa [ne, same] using other

/-- The second message arrives when the first goroutine is done with the task. -/
def laterDelivery : List Step :=
  [.dispatch ⟨7⟩, .process 0 .store, .process 0 (.claim true), .process 0 .watch, .process 0 .finish,
    .process 0 .delete, .process 0 .release, .heartbeat 0 .done, .dispatch ⟨7⟩, .process 1 .store,
    .process 1 (.claim true), .process 1 .watch, .stop]

theorem laterDelivery_cancelled : ∃ s t u, Steps.runChecked (next 2) aloneStep init laterDelivery = some s ∧
    next 2 s .force = some t ∧ Steps.runChecked (next 2) aloneStep t [.visit ⟨7⟩, .ranged] = some u ∧
    s.inFlight ⟨7⟩ = some 1 ∧ u.cancelled 1 = true := by
  obtain ⟨s, t, u, first, force, second, held, holds, ended⟩ : ∃ s t u,
      Steps.runChecked (next 2) aloneStep init laterDelivery = some s ∧ next 2 s .force = some t ∧
      Steps.runChecked (next 2) aloneStep t [.visit ⟨7⟩, .ranged] = some u ∧
      s.goroutines[1]? = some ⟨⟨7⟩, .executing, .waiting⟩ ∧ u.goroutines[1]? = some ⟨⟨7⟩, .executing, .waiting⟩ ∧
      u.drain = .forced := ⟨_, _, _, rfl, rfl, rfl, rfl, rfl, rfl⟩
  have reach : Steps.Reach (next 2) Alone init s := Steps.reach_of_checked (fun _ _ => alone_of_aloneStep) first
  have later : Steps.Reach (next 2) Alone t u := Steps.reach_of_checked (fun _ _ => alone_of_aloneStep) second
  obtain ⟨own, -, -, forced⟩ := cancels_its_own reach
  exact ⟨s, t, u, first, force, second, own 1 _ held rfl, forced t u 1 _ _ force later ended held rfl holds rfl⟩

end Windylane.Pool
