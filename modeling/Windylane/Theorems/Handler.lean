import Mathlib.Logic.Relation
import Windylane.Calls
import Windylane.Handler
import Windylane.Theorems.Idempotency
import Windylane.Theorems.Leases

/-! Job handlers and `Execute`. Whatever the stores answer, `Execute` attempts one transition of its task and returns. The
    goroutine of the handler runs beside it: as long as the handler does not panic, every run comes to that end, however
    the handler and its deadline race. A panic ends the process at any point of it. -/

namespace Windylane.Handler

open Conc Script Prog

/-! ### One transition -/

section Programs
variable {past : List machine.Exchange} {α : Type}

/-- A transition is attempted only when none was before. -/
def Once (past : List machine.Exchange) (o : Op) : Prop := transition o = true → past.countP (fun c => transition c.1) = 0

/-- `Execute` returned a result for the task, and attempted one transition. -/
def Returned (task : Task) (past : List machine.Exchange) (r : Except Err EngineResult) : Prop :=
  (∃ result, r = .ok result ∧ result.taskID = task.id) ∧ past.countP (fun c => transition c.1) = 1

theorem not_transition_of_within {o : Op} (within : o.within (.unresulting False)) : transition o = false := by
  unfold transition
  split
  · exact within.elim
  · exact within.elim
  · exact within.elim
  · rfl

/-- What follows the transition attempts no other. -/
theorem along_after {φ : Except Err α → Prop} {p : Script α} {n : Nat} (ends : p.Ends SysAnswers φ)
    (calls : p.Calls (Op.within (.unresulting False))) (tried : past.countP (fun c => transition c.1) = n) :
    p.Along SysAnswers Once (fun after r => φ r ∧ after.countP (fun c => transition c.1) = n) past := by
  have along : p.Along SysAnswers Once (fun _ r => φ r) past :=
    ends.along (fun _ _ h => h) calls fun _ o within moves => by rw [not_transition_of_within within] at moves; cases moves
  refine (along.framed calls).imp ?_
  rintro _ r ⟨ended, more, rfl, within⟩
  refine ⟨ended, ?_⟩
  rw [List.countP_append, tried, List.countP_eq_zero.2 fun c hc => ?_, Nat.add_zero]
  simp [not_transition_of_within (within c hc)]

/-- An attempted transition, and the rest for when it succeeded. -/
theorem along_transition {task : Task} {o : TaskOp} {f : machine.Answer (.task o) → Script EngineResult}
    (moves : transition (.task o) = true) (new : past.countP (fun c => transition c.1) = 0)
    (refused : ∀ e, ∃ result, f (.error e) = ret result ∧ result.taskID = task.id)
    (ends : ∀ a, (f (.ok a)).Ends SysAnswers fun r => ∃ result, r = .ok result ∧ result.taskID = task.id)
    (calls : ∀ a, (f (.ok a)).Calls (Op.within (.unresulting False))) :
    (attempt (S := machine.toSignature) (.task o) >>= f).Along SysAnswers Once (Returned task) past := by
  refine ⟨fun _ => new, fun r _ => ?_⟩
  have tried : (past ++ [(⟨.task o, r⟩ : machine.Exchange)]).countP (fun c => transition c.1) = 1 := by
    rw [List.countP_append, new]
    simp [moves]
  cases r with
  | error e =>
    obtain ⟨result, returned, named⟩ := refused e
    change (f (.error e)).Along SysAnswers Once (Returned task) _
    rw [returned]
    exact ⟨⟨_, rfl, named⟩, tried⟩
  | ok a => exact along_after (ends a) (calls a) tried

/-- What happens outside the stores is answered. -/
theorem along_sys {task : Task} {o : SysOp} {f : o.Resp → Script EngineResult}
    (rest : ∀ a, (f a).Along SysAnswers Once (Returned task) (past ++ [⟨.sys o, .ok a⟩])) :
    (perform (S := machine.toSignature) (.sys o) >>= f).Along SysAnswers Once (Returned task) past := by
  refine Along.perform (fun moves => by cases moves) ?_ fun a _ => rest a
  rintro e ⟨_, he⟩
  cases he

theorem publishTaskEvent_apart (h : Host) (eventType : WebhookEventType) (task : Task) :
    (publishTaskEvent h eventType task).Calls (Op.within (.unresulting False)) :=
  publishTaskEvent_calls (fun _ _ => trivial) h eventType task

/-- After its transition, a task is announced and its message is moved. -/
theorem announce_ends {task : Task} (h : Host) (eventType : WebhookEventType) (announced : Task) {rest : Script EngineResult}
    (ends : rest.Ends SysAnswers fun r => ∃ result, r = .ok result ∧ result.taskID = task.id) :
    (publishTaskEvent h eventType announced >>= fun _ => rest).Ends SysAnswers
      fun r => ∃ result, r = .ok result ∧ result.taskID = task.id := by
  refine (publishTaskEvent_ends h eventType announced).bind (fun _ _ => ends) ?_
  rintro e ⟨_, he⟩
  cases he

theorem handleFailure_once (h : Host) (task : Task) (execErr : String) (now : Time)
    (new : past.countP (fun c => transition c.1) = 0) :
    (handleFailure h task execErr now).Along SysAnswers Once (Returned task) past := by
  unfold handleFailure
  simp only
  split
  · refine along_transition rfl new (fun _ => ⟨_, rfl, rfl⟩) (fun _ => ?_) fun _ => ?_
    · refine sys_ends fun _ => sys_ends fun _ => announce_ends h _ _ fun r _ => ?_
      exact ⟨_, rfl, rfl⟩
    · simp [perform, attempt, Op.within, publishTaskEvent_apart, Calls.bind]
  · refine along_transition rfl new (fun _ => ⟨_, rfl, rfl⟩) (fun _ => ?_) fun _ => ?_
    · refine sys_ends fun _ => sys_ends fun _ => announce_ends h _ _ fun r _ => ?_
      cases r with
      | error e => exact ⟨_, rfl, rfl⟩
      | ok _ => exact fun _ _ => ⟨_, rfl, rfl⟩
    · simp [perform, attempt, Op.within, publishTaskEvent_apart, Calls.bind]

theorem execute_once (h : Host) (task : Task) : (execute h task).Along SysAnswers Once (Returned task) [] := by
  refine along_sys fun failed => along_sys fun now => ?_
  cases failed with
  | some execErr => exact handleFailure_once h task execErr now rfl
  | none =>
    refine along_transition rfl rfl (fun _ => ⟨_, rfl, rfl⟩) (fun _ => ?_) fun _ => ?_
    · exact sys_ends fun _ => announce_ends h _ _ fun _ _ => ⟨_, rfl, rfl⟩
    · simp [perform, attempt, Op.within, publishTaskEvent_apart, Calls.bind]

end Programs

/-! ### The goroutines -/

/-- What every state of a run keeps, as long as the process lives. -/
structure Inv (task : Task) (s : State) : Prop where
  rest : s.prog.Along SysAnswers Once (Returned task) s.past
  once : s.transitions ≤ 1

section Runs
variable {b : Behaviour} {h : Host} {task : Task} {s t : State}

theorem Inv.answered {o : Op} {k : machine.Answer o → Script EngineResult} {r : machine.Answer o} (inv : Inv task s)
    (here : s.prog = .call o k) (answer : SysAnswers o r) : Inv task (s.answered o k r) := by
  obtain ⟨new, next⟩ : (Prog.call o k).Along SysAnswers Once (Returned task) s.past := here ▸ inv.rest
  refine ⟨next r answer, ?_⟩
  simp only [State.transitions, State.answered, List.countP_append]
  cases moves : transition o with
  | true =>
    rw [new moves]
    simp [moves]
  | false =>
    have := inv.once
    simpa [State.transitions, moves] using this

theorem Inv.step (inv : Inv task s) (step : Step b s t) : Inv task t := by
  cases step with
  | spawn | send | panic | expire => exact ⟨inv.rest, inv.once⟩
  | @receive payload k err alive here sent =>
    have next := inv.answered (r := .ok err) here ⟨err, rfl⟩
    exact ⟨next.rest, next.once⟩
  | timeout alive here started expired => exact inv.answered here ⟨_, rfl⟩
  | call env w alive here other => exact inv.answered here (sysAnswers env _ w)

theorem inv_of_run (run : Relation.ReflTransGen (Step b) (start h task) s) : Inv task s := by
  induction run with
  | refl => exact ⟨execute_once h task, Nat.zero_le _⟩
  | tail _ step ih => exact ih.step step

theorem alive_of_run (run : Relation.ReflTransGen (Step b) (start h task) s) (quiet : ∀ value, b ≠ .panics value) :
    s.alive = true := by
  induction run with
  | refl => rfl
  | tail _ step ih =>
    cases step with
    | panic _ panics => exact (quiet _ panics).elim
    | _ => exact ih

/-- As long as it has not returned, the process can go on: the deadline of the handler passes. -/
theorem step_of_unreturned (alive : s.alive = true) (unreturned : s.prog.result = none) : ∃ t, Step b s t := by
  cases here : s.prog with
  | ret a => simp [here, Prog.result] at unreturned
  | fail e => simp [here, Prog.result] at unreturned
  | call o k =>
    by_cases handler : ∃ payload, o = .sys (.runHandler payload)
    · obtain ⟨payload, rfl⟩ := handler
      by_cases new : s.child = .unstarted
      · exact ⟨_, .spawn alive here new⟩
      · cases expired : s.ctxErr with
        | none => exact ⟨_, .expire "" alive expired⟩
        | some e => exact ⟨_, .timeout alive here new expired⟩
    · exact ⟨_, .call (sampleEnv 0 ⟨0⟩) gateWorld alive here fun payload same => handler ⟨payload, same⟩⟩

/-- The steps that are left beside the program: of the handler's goroutine, and of the deadline. -/
def State.beside (s : State) : Nat :=
  (match s.child with
    | .unstarted => 2
    | .running => 1
    | .ended => 0) + (if s.ctxErr = none then 1 else 0)

/-- No run goes on forever. -/
theorem step_wellFounded (b : Behaviour) : WellFounded fun t s => Step b s t := by
  refine ⟨fun s => ?_⟩
  -- by the program that is left, and for the same program by what is left beside it
  generalize hp : s.prog = p
  induction p generalizing s with
  | ret a | fail e =>
    generalize hn : s.beside = n
    induction n using Nat.strong_induction_on generalizing s with
    | _ n ih =>
      refine ⟨s, fun t step => ?_⟩
      cases step with
      | send _ _ running | panic _ _ running =>
        exact ih _ (by rw [← hn]; simp [State.beside, running]) _ hp rfl
      | expire _ _ live => exact ih _ (by rw [← hn]; simp [State.beside, live]) _ hp rfl
      | spawn _ here | receive _ here | timeout _ here | call _ _ _ here => cases hp.symm.trans here
  | call o k ihp =>
    generalize hn : s.beside = n
    induction n using Nat.strong_induction_on generalizing s with
    | _ n ih =>
      refine ⟨s, fun t step => ?_⟩
      cases step with
      | spawn _ _ new => exact ih _ (by rw [← hn]; simp [State.beside, new]) _ hp rfl
      | send _ _ running | panic _ _ running =>
        exact ih _ (by rw [← hn]; simp [State.beside, running]) _ hp rfl
      | expire _ _ live => exact ih _ (by rw [← hn]; simp [State.beside, live]) _ hp rfl
      | receive _ here | timeout _ here | call _ _ _ here =>
        cases hp.symm.trans here
        exact ihp _ _ rfl

theorem handler_contained (quiet : ∀ value, b ≠ .panics value) (run : Relation.ReflTransGen (Step b) (start h task) s) :
    s.alive = true ∧ s.transitions ≤ 1 ∧
      (∀ r, s.prog.result = some r → (∃ result, r = .ok result ∧ result.taskID = task.id) ∧ s.transitions = 1) ∧
      (s.prog.result = none → ∃ t, Step b s t) ∧ Acc (fun t s => Step b s t) s := by
  have inv := inv_of_run run
  have alive := alive_of_run run quiet
  exact ⟨alive, inv.once, fun r ended => inv.rest.ended ended, step_of_unreturned alive, (step_wellFounded b).apply s⟩

end Runs

/-! ### A panic -/

/-- The handler is started and panics: the process ends, and `Execute` has attempted nothing. -/
theorem panic_ends_process : ∃ s, Relation.ReflTransGen (Step (.panics "boom"))
      (start sampleHost (requestedTask sampleTask "" .empty ⟨1⟩ 0)) s ∧
    s.alive = false ∧ s.prog.result = none ∧ s.transitions = 0 :=
  ⟨_, .tail (.single (.spawn rfl rfl rfl)) (.panic rfl rfl rfl), rfl, rfl, rfl⟩

/-- A handler that hangs is given up when its deadline passes. -/
theorem hanging_contained : ∃ s, Relation.ReflTransGen (Step .hangs)
      (start sampleHost (requestedTask sampleTask "" .empty ⟨1⟩ 0)) s ∧
    s.past = [⟨.sys (.runHandler .empty), .ok (some "task execution timeout: context deadline exceeded")⟩] ∧
    s.alive = true ∧ s.transitions ≤ 1 ∧ (s.prog.result = none → ∃ t, Step .hangs s t) ∧
    Acc (fun t s => Step .hangs s t) s := by
  obtain ⟨s, run, past⟩ : ∃ s, Relation.ReflTransGen (Step .hangs)
        (start sampleHost (requestedTask sampleTask "" .empty ⟨1⟩ 0)) s ∧
      s.past = [⟨.sys (.runHandler .empty), .ok (some "task execution timeout: context deadline exceeded")⟩] :=
    ⟨_, ((Relation.ReflTransGen.single (.spawn rfl rfl rfl)).tail (.expire "context deadline exceeded" rfl rfl)).tail
      (.timeout rfl rfl (by decide) rfl), rfl⟩
  obtain ⟨alive, once, -, goes, ends⟩ := handler_contained (fun _ h => by cases h) run
  exact ⟨s, run, past, alive, once, goes, ends⟩

end Windylane.Handler
