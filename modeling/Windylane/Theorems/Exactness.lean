import Windylane.Theorems.Transitions

/-! The recorder gets one event for every change of an execution or a node. Each change was made once, every process reported
    what it changed, and the nodes that were cancelled with an execution are listed by the process that closed it, after
    which they stay as they are. -/

namespace Windylane

open Conc Script Prog

/-! ### Listings -/

theorem unlisted_eq_some {past : List machine.Exchange} {scope : UUID × UUID} (h : unlisted past = some scope) :
    ∃ r c rest, past = r :: c :: rest ∧ closing c = some scope := by
  unfold unlisted at h
  split at h
  · exact ⟨_, _, _, rfl, h⟩
  · cases h

theorem listing_of_closing {c : machine.Exchange} {orgID id : UUID} (h : closing c = some (orgID, id)) :
    .listing orgID id ∈ debtsOf c := by
  unfold closing at h
  split at h
  · cases h
    simp [debtsOf]
  · cases h
    simp [debtsOf]
  · cases h

theorem WorkflowExecution.listing_proved {x : WorkflowExecution} {orgID id : UUID} (h : .listing orgID id ∈ x.proves) :
    x.orgID = orgID ∧ x.id = id ∧ (x.status = .failed ∨ x.status = .cancelled) := by
  cases status : x.status with
  | pending | running | succeeded => simp [WorkflowExecution.proves, WorkflowExecution.ended, status] at h
  | failed | cancelled =>
    have same : orgID = x.orgID ∧ id = x.id := by
      simpa [WorkflowExecution.proves, WorkflowExecution.ended, status] using h
    exact ⟨same.1.symm, same.2.symm, by simp⟩

/-- The execution has ended. -/
def EndedAs (c : Canvas.Store) (orgID id : UUID) (r : Run) : Prop :=
  runOf c id = some r ∧ r.execution.orgID = orgID ∧ r.execution.status.terminal = true

/-- What a call that closed an execution, and one that listed its nodes then, say of it for good. -/
structure ClosedList (c : Canvas.Store) (past : List machine.Exchange) (e : machine.Exchange) : Prop where
  closed : ∀ orgID id, closing e = some (orgID, id) → ∃ r, EndedAs c orgID id r
  nodes : ∀ l, listingOf past.reverse e = some l → ∃ r, EndedAs c l.orgID l.executionID r ∧ l.nodes.Perm r.nodes

section Listings
variable {strict : Prop} {done : WorkflowNodeExecution → Prop} {c c' : Canvas.Store} {orgID id : UUID} {r : Run}

theorem EndedAs.step (ended : EndedAs c orgID id r) (inv : CanvasInv strict done c) (step : CanvasStep strict done c c') :
    EndedAs c' orgID id r := by
  obtain ⟨hr, org, terminal⟩ := ended
  obtain ⟨d, pinned, run⟩ := inv.runs _ _ hr
  obtain ⟨r', hr', rfl | ⟨d', pinned', moved⟩⟩ := step.runOf hr
  · exact ⟨hr', org, terminal⟩
  · rw [pinned] at pinned'
    cases pinned'
    rw [moved.frozen run terminal] at hr'
    exact ⟨hr', org, terminal⟩

/-- The nodes of an execution are listed. -/
theorem EndedAs.listed (ended : EndedAs c orgID id r) (inv : CanvasInv strict done c) :
    (Canvas.getWorkflowNodeExecutions orgID id c).Perm r.nodes := by
  obtain ⟨hr, org, -⟩ := ended
  obtain ⟨d, -, run⟩ := inv.runs _ _ hr
  have rows : c.nodes.filter (fun n => n.orgID = orgID && n.workflowExecutionID = id) = r.nodes := by
    rw [(runOf_eq_some.1 hr).2]
    refine List.filter_congr fun n hn => ?_
    rw [Bool.and_eq_right_iff_imp]
    intro execution
    have mine : n ∈ r.nodes := by
      rw [(runOf_eq_some.1 hr).2]
      exact List.mem_filter.2 ⟨hn, execution⟩
    exact decide_eq_true ((run.owned n mine).1.trans org)
  unfold Canvas.getWorkflowNodeExecutions
  rw [rows]
  refine Table.firstBy_perm ?_
  rw [(runOf_eq_some.1 hr).2]
  exact List.length_filter_le _ _

theorem ClosedList.step {past : List machine.Exchange} {e : machine.Exchange} (listed : ClosedList c past e)
    (inv : CanvasInv strict done c) (step : CanvasStep strict done c c') : ClosedList c' past e where
  closed := fun orgID id closes => by
    obtain ⟨r, ended⟩ := listed.closed orgID id closes
    exact ⟨r, ended.step inv step⟩
  nodes := fun l lists => by
    obtain ⟨r, ended, perm⟩ := listed.nodes l lists
    exact ⟨r, ended.step inv step, perm⟩

end Listings

section Runs
variable {h : Host} {w : World} {s : State}

/-- Every listing is still right. -/
theorem listed_run (fresh : w.Fresh) (reach : Reachable h (fun _ => Calm) w s) (pid : Nat) (past : List machine.Exchange)
    (e : machine.Exchange) (rest : List machine.Exchange) (split : history pid s.config.trace = past ++ e :: rest) :
    ClosedList s.config.world.canvas past e := by
  refine (reach.recalls_past (W := fun _ => True) (K := fun (config : Config machine) past e => ClosedList config.world.canvas past e) trivial ?_).2
    pid past e rest split
  intro s pid env o prior calm calling _ known
  have inv := canvas_inv fresh prior
  have step := canvas_step fresh prior calling env
  refine ⟨trivial, ⟨fun orgID id closes => ?_, fun l lists => ?_⟩, fun past e listed => listed.step inv step⟩
  · have leaves := Op.leaves calm inv (changes_run fresh prior).2 (calling_rightful fresh prior calling).lawful
    obtain ⟨-, -, ⟨x, hx, proved⟩ | ⟨n, hn, proved⟩⟩ := leaves.new _ (listing_of_closing closes)
    · obtain ⟨org, rfl, failed | cancelled⟩ := WorkflowExecution.listing_proved proved
      · exact ⟨_, (step.inv inv).runOf_of_mem hx, org, by rw [failed]; rfl⟩
      · exact ⟨_, (step.inv inv).runOf_of_mem hx, org, by rw [cancelled]; rfl⟩
    · cases WorkflowNodeExecution.subject_of_shows (WorkflowNodeExecution.shows_of_proves proved)
  · generalize answered : (machine.exec env o s.config.world).1 = answer at lists
    unfold listingOf at lists
    split at lists
    · rename_i orgID id nodes exchange
      cases exchange
      split at lists
      · rename_i closed
        cases lists
        obtain ⟨r, c, before, same, closes⟩ := unlisted_eq_some closed
        have ended := (known pid before.reverse c [r] (by rw [← List.reverse_reverse (history _ _), same]; simp)).closed _ _ closes
        obtain ⟨run, ended⟩ := ended
        refine ⟨run, ended.step inv step, ?_⟩
        have answered : ((Op.canvas (.getWorkflowNodeExecutions orgID id)).exec env s.config.world).1 = .ok nodes := answered
        rw [Op.exec_calm calm] at answered
        cases answered
        exact ended.listed inv
      · cases lists
    · cases lists

/-! ### Counting -/

/-- How many events of the type were recorded for an execution or a node. -/
def recordedEvents (trace : List (Event machine)) (eventType : MetricEventType) (id : UUID) : Nat :=
  trace.countP fun e => canvasEvent e.op = some (.event eventType id)

/-- A number is one or zero, as a condition holds or not. -/
def OnceIff (count : Nat) (P : Prop) : Prop := (P → count = 1) ∧ (¬ P → count = 0)

theorem onceIff_count {l : List Debt} (once : l.Nodup) {d : Debt} {P : Prop} (iff : d ∈ l ↔ P) : OnceIff (l.count d) P := by
  refine ⟨fun holds => List.count_eq_one_of_mem once (iff.2 holds), fun fails => ?_⟩
  exact List.count_eq_zero.2 fun hd => fails (iff.1 hd)

theorem recordedEvents_eq (trace : List (Event machine)) (eventType : MetricEventType) (id : UUID) :
    (trace.map fun e => (canvasEvent e.op).toList.count (.event eventType id)).sum = recordedEvents trace eventType id := by
  induction trace with
  | nil => rfl
  | cons e rest ih =>
    unfold recordedEvents at ih ⊢
    rw [List.map_cons, List.sum_cons, List.countP_cons, ih, Nat.add_comm]
    cases canvasEvent e.op with
    | none => rfl
    | some d =>
      simp only [Option.toList_some, List.count_singleton, Option.some.injEq, beq_iff_eq, decide_eq_true_eq]

/-- All processes have ended. -/
def Idle (s : State) : Prop := ∀ p ∈ s.procs, p.prog.result.isSome = true

theorem replied (env : Env) (calm : env.fault = none) (o : Op) (w : World) : Replied o (o.exec env w).1 := by
  rw [Op.exec_calm calm]
  unfold Replied
  split
  · exact ⟨_, rfl⟩
  · exact ⟨_, rfl⟩
  · trivial

theorem owes_nothing (reach : Reachable h (fun _ => Calm) w s) (idle : Idle s) :
    ∀ pid < s.procs.length, reports.Owes [] (history pid s.config.trace) := by
  intro pid started
  obtain ⟨p, hp⟩ : ∃ p, s.procs[pid]? = some p := ⟨_, List.getElem?_eq_getElem started⟩
  have along := reach.along (A := Replied) (P := fun _ _ _ => True) (Q := fun _ after _ => Owing [] after)
    (fun s pid env o _ calm _ => replied env calm o s.config.world) (fun request => body_balances h request [] owing_nil) hp
  obtain ⟨r, ended⟩ := Option.isSome_iff_exists.1 (idle p (List.mem_of_getElem? hp))
  exact (along.ended ended).owes

section Counts
variable (reach : Reachable h (fun _ => Calm) w s)
include reach

/-- The events that were paid are those that were recorded. -/
theorem total_paid (eventType : MetricEventType) (id : UUID) :
    total (fun before c => (reports.pays before c).count (.event eventType id)) s.config.trace s.procs.length =
      recordedEvents s.config.trace eventType id := by
  rw [total_congr (g := fun _ c => (canvasEvent c.1).toList.count (.event eventType id)), total_plain _ reach.pid_lt,
    ← recordedEvents_eq]
  intro pid past c rest _
  simp only [reports, List.count_append]
  cases listingOf past.reverse c <;> simp

/-- The changes that no listing speaks of. -/
theorem total_changes {d : Debt} (other : ∀ nodes, (cancelledDebts nodes).count d = 0) :
    total (fun before c => (reports.incurs before c).count d) s.config.trace s.procs.length =
      (canvasMarks.trail s.config.trace).count d := by
  rw [total_congr (g := fun _ c => (debtsOf c).count d), total_plain _ reach.pid_lt, Marks.trail, List.count_flatMap]
  · rfl
  · intro pid past c rest _
    simp only [reports, List.count_append]
    cases listingOf past.reverse c <;> simp [other]

theorem recorded_changes (idle : Idle s) {eventType : MetricEventType} (id : UUID)
    (other : eventType ≠ .nodeExecutionCancelled) :
    recordedEvents s.config.trace eventType id = (canvasMarks.trail s.config.trace).count (.event eventType id) := by
  rw [← total_paid reach, Accounts.settled (owes_nothing reach idle), total_changes reach fun nodes => ?_]
  refine List.count_eq_zero.2 fun hd => ?_
  obtain ⟨n, -, same⟩ := List.mem_map.1 hd
  injection same with same
  exact other same.symm

end Counts

theorem cancelledDebts_nodup {nodes : List WorkflowNodeExecution} (ids : (nodes.map (·.id)).Nodup) :
    (cancelledDebts nodes).Nodup := by
  have named : cancelledDebts nodes =
      ((nodes.filter (·.status = .cancelled)).map (·.id)).map (.event .nodeExecutionCancelled) := by
    rw [List.map_map]
    rfl
  rw [named]
  refine List.Nodup.map (fun a b same => by injection same) (ids.sublist (List.Sublist.map _ List.filter_sublist))

/-- Nodes that are cancelled are counted with the listing of their execution. -/
theorem count_listed (fresh : w.Fresh) (reach : Reachable h (fun _ => Calm) w s) {n : WorkflowNodeExecution}
    (hn : n ∈ s.config.world.canvas.nodes) {pid : Nat} {past rest : List machine.Exchange} {c : machine.Exchange}
    (split : history pid s.config.trace = past ++ c :: rest) :
    (reports.incurs past.reverse c).count (.event .nodeExecutionCancelled n.id) =
      (reports.pays past.reverse c).count (.listing n.orgID n.workflowExecutionID) *
        if n.status = .cancelled then 1 else 0 := by
  obtain ⟨kept, ids⟩ := changes_run fresh reach
  have inv := canvas_inv fresh reach
  -- no call reports a cancelled node by itself
  have direct : (debtsOf c).count (.event .nodeExecutionCancelled n.id) = 0 := by
    refine List.count_eq_zero.2 fun hd => ?_
    obtain ⟨e, he, -, rfl⟩ := exists_of_mem_history (split ▸ List.mem_append_right past List.mem_cons_self)
    rcases kept.may _ (List.mem_flatMap.2 ⟨e, he, hd⟩) with ⟨x, -, shown⟩ | ⟨n, -, shown⟩
    · cases WorkflowExecution.subject_of_shows shown
    · cases WorkflowNodeExecution.subject_of_shows shown
  have event : (canvasEvent c.1).toList.count (.listing n.orgID n.workflowExecutionID) = 0 := by
    refine List.count_eq_zero.2 fun hd => ?_
    unfold canvasEvent at hd
    split at hd
    · split at hd
      · simp at hd
      · cases hd
    · cases hd
  simp only [reports, List.count_append, direct, event, Nat.zero_add]
  cases lists : listingOf past.reverse c with
  | none => simp
  | some l =>
    obtain ⟨r, ended, perm⟩ := (listed_run fresh reach pid past c rest split).nodes l lists
    obtain ⟨d, -, run⟩ := inv.runs _ _ ended.1
    have same : (cancelledDebts l.nodes).Perm (cancelledDebts r.nodes) := (perm.filter _).map _
    have once := cancelledDebts_nodup run.ids
    simp only [Option.elim_some, same.count_eq, List.count_singleton, beq_iff_eq, Debt.listing.injEq]
    have stored : ∀ n' ∈ r.nodes, n' ∈ s.config.world.canvas.nodes := fun n' hn' => by
      rw [(runOf_eq_some.1 ended.1).2] at hn'
      exact (List.mem_filter.1 hn').1
    by_cases mine : n.workflowExecutionID = l.executionID
    · have member : n ∈ r.nodes := by
        rw [(runOf_eq_some.1 ended.1).2]
        exact List.mem_filter.2 ⟨hn, decide_eq_true mine⟩
      rw [if_pos ⟨ended.2.1.symm.trans (run.owned n member).1.symm, mine.symm⟩, Nat.one_mul]
      split
      · rename_i cancelled
        exact List.count_eq_one_of_mem once (List.mem_map.2 ⟨n, List.mem_filter.2 ⟨member, decide_eq_true cancelled⟩, rfl⟩)
      · rename_i live
        refine List.count_eq_zero.2 fun hd => live ?_
        obtain ⟨n', hn', same⟩ := List.mem_map.1 hd
        injection same with _ id
        obtain ⟨hn', cancelled⟩ := List.mem_filter.1 hn'
        rw [← Table.eq_of_key run.ids hn' member id]
        exact of_decide_eq_true cancelled
    · rw [if_neg fun same => mine same.2.symm, Nat.zero_mul]
      refine List.count_eq_zero.2 fun hd => mine ?_
      obtain ⟨n', hn', same⟩ := List.mem_map.1 hd
      injection same with _ id
      have hn' := (List.mem_filter.1 hn').1
      rw [← Table.eq_of_key ids (stored n' hn') hn id, (run.owned n' hn').2]
      exact runOf_id ended.1

/-- A node is cancelled with its execution, which was closed then. -/
theorem cancelled_closed (fresh : w.Fresh) (reach : Reachable h (fun _ => Calm) w s) {n : WorkflowNodeExecution}
    (hn : n ∈ s.config.world.canvas.nodes) (cancelled : n.status = .cancelled) :
    .listing n.orgID n.workflowExecutionID ∈ canvasMarks.trail s.config.trace := by
  have inv := canvas_inv fresh reach
  obtain ⟨r, d, hr, mine, -, run⟩ := inv.run_of_node hn
  obtain ⟨org, execution⟩ := run.owned n mine
  refine (changes_run fresh reach).1.must _ (Or.inl ⟨r.execution, runOf_mem hr, ?_⟩)
  rw [org, execution]
  have ended : r.execution.status.terminal = true := by
    by_contra live
    exact run.live (Bool.not_eq_true _ ▸ live) n mine cancelled
  cases status : r.execution.status with
  | pending | running =>
    rw [status] at ended
    cases ended
  | succeeded =>
    rcases run.complete status n mine with done | done <;> rw [cancelled] at done <;> cases done
  | failed | cancelled => simp [WorkflowExecution.proves, WorkflowExecution.ended, status]

theorem recorded_cancelled (fresh : w.Fresh) (reach : Reachable h (fun _ => Calm) w s) (idle : Idle s)
    {n : WorkflowNodeExecution} (hn : n ∈ s.config.world.canvas.nodes) :
    OnceIff (recordedEvents s.config.trace .nodeExecutionCancelled n.id) (n.status = .cancelled) := by
  have paid := owes_nothing reach idle
  have counted : recordedEvents s.config.trace .nodeExecutionCancelled n.id =
      (canvasMarks.trail s.config.trace).count (.listing n.orgID n.workflowExecutionID) *
        if n.status = .cancelled then 1 else 0 := by
    rw [← total_paid reach, Accounts.settled paid, total_congr (g := fun before c =>
      (reports.pays before c).count (.listing n.orgID n.workflowExecutionID) * if n.status = .cancelled then 1 else 0)
      fun pid past c rest split => count_listed fresh reach hn split, total_mul, Accounts.settled paid, total_changes reach fun nodes => ?_]
    refine List.count_eq_zero.2 fun hd => ?_
    obtain ⟨n, -, same⟩ := List.mem_map.1 hd
    cases same
  refine ⟨fun cancelled => ?_, fun live => ?_⟩
  · rw [counted, if_pos cancelled, Nat.mul_one]
    exact List.count_eq_one_of_mem (changes_run fresh reach).1.once (cancelled_closed fresh reach hn cancelled)
  · rw [counted, if_neg live, Nat.mul_zero]

/-! ### What the rows say -/

section Rows
variable (fresh : w.Fresh) (reach : Reachable h (fun _ => Calm) w s)
include fresh reach

theorem execution_shows {x : WorkflowExecution} (hx : x ∈ s.config.world.canvas.executions) {d : Debt}
    (subject : d.subject = .execution x.id) (hd : d ∈ canvasMarks.trail s.config.trace) : d ∈ x.shows := by
  rcases (changes_run fresh reach).1.may _ hd with ⟨y, hy, shown⟩ | ⟨n, -, shown⟩
  · have same := subject.symm.trans (WorkflowExecution.subject_of_shows shown)
    injection same with id
    rwa [Table.eq_of_key (canvas_inv fresh reach).ids hx hy id]
  · cases subject.symm.trans (WorkflowNodeExecution.subject_of_shows shown)

theorem node_shows {n : WorkflowNodeExecution} (hn : n ∈ s.config.world.canvas.nodes) {d : Debt}
    (subject : d.subject = .node n.id) (hd : d ∈ canvasMarks.trail s.config.trace) : d ∈ n.shows := by
  rcases (changes_run fresh reach).1.may _ hd with ⟨x, -, shown⟩ | ⟨m, hm, shown⟩
  · cases subject.symm.trans (WorkflowExecution.subject_of_shows shown)
  · have same := subject.symm.trans (WorkflowNodeExecution.subject_of_shows shown)
    injection same with id
    rwa [Table.eq_of_key (changes_run fresh reach).2 hn hm id]

theorem execution_ended {x : WorkflowExecution} (hx : x ∈ s.config.world.canvas.executions) {status : WorkflowExecutionStatus}
    {eventType : MetricEventType} (event : status.event = some eventType) :
    .event eventType x.id ∈ canvasMarks.trail s.config.trace ↔ x.status = status := by
  constructor
  · intro hd
    have shown := execution_shows fresh reach hx (by cases status <;> cases event <;> rfl) hd
    cases status <;> cases event <;> cases now : x.status <;>
      simp [WorkflowExecution.shows, WorkflowExecution.ended, now] at shown ⊢
  · rintro rfl
    refine (changes_run fresh reach).1.must _ (Or.inl ⟨x, hx, ?_⟩)
    cases now : x.status <;> rw [now] at event <;> cases event <;> simp [WorkflowExecution.proves, WorkflowExecution.ended, now]

theorem node_ended {n : WorkflowNodeExecution} (hn : n ∈ s.config.world.canvas.nodes) {status : WorkflowNodeExecutionStatus}
    {eventType : MetricEventType} (event : status.event = some eventType) (other : status ≠ .cancelled) :
    .event eventType n.id ∈ canvasMarks.trail s.config.trace ↔ n.status = status := by
  constructor
  · intro hd
    have shown := node_shows fresh reach hn (by cases status <;> cases event <;> first | rfl | exact absurd rfl other) hd
    cases status <;> cases event <;> cases now : n.status <;>
      simp [WorkflowNodeExecution.shows, WorkflowNodeExecution.ended, now] at shown other ⊢
  · rintro rfl
    refine (changes_run fresh reach).1.must _ (Or.inr ⟨n, hn, ?_⟩)
    cases now : n.status <;> rw [now] at event other <;> cases event <;>
      first
      | exact absurd rfl other
      | simp [WorkflowNodeExecution.proves, WorkflowNodeExecution.ended, now]

end Rows

end Runs

/-! ### Runs -/

/-- Some state of a run satisfied the condition. -/
def Ever (h : Host) (w : World) (actions : List (Action machine Request)) (P : Canvas.Store → Prop) : Prop :=
  ∃ before t, before <+: actions ∧ (System.init w).run (body h) before = some t ∧ P t.config.world.canvas

section Whole
variable {h : Host} {w : World} {actions : List (Action machine Request)} {s : State} (fresh : w.Fresh)
  (calm : ∀ a ∈ actions, Calm a) (run : (System.init w).run (body h) actions = some s)
include fresh calm run

/-- A change was made in a run when some state of it proves it. -/
theorem made_iff {d : Debt} : d ∈ canvasMarks.trail s.config.trace ↔
    Ever h w actions fun c => (∃ x ∈ c.executions, d ∈ x.proves) ∨ ∃ n ∈ c.nodes, d ∈ n.proves := by
  have reaches : ∀ before t, before <+: actions → (System.init w).run (body h) before = some t →
      Reachable h (fun _ => Calm) w t := fun before t beginning ran =>
    System.reach_of_run (fun a ha _ => calm a (beginning.subset ha)) ran
  constructor
  · intro hd
    refine (Marks.left_during run ?_ hd).resolve_left (by simp [System.init, Marks.trail])
    intro before t pid env o beginning ran step calling m hm
    have prior := reaches before t beginning ran
    have lawful := (calling_rightful fresh prior calling).lawful
    exact ((Op.leaves (calm _ step) (canvas_inv fresh prior) (changes_run fresh prior).2 lawful).new m hm).2.2
  · rintro ⟨before, t, ⟨after, rfl⟩, ran, proved⟩
    have made := (changes_run fresh (reaches before t (List.prefix_append before after) ran)).1.must d proved
    rw [System.run_append, ran] at run
    exact Marks.trail_suffix (System.run_trace run) made

theorem execution_started {id : UUID} : .event .workflowExecutionStarted id ∈ canvasMarks.trail s.config.trace ↔
    Ever h w actions fun c => ∃ x ∈ c.executions, x.id = id ∧ x.status = .running := by
  rw [made_iff fresh calm run]
  have proved : ∀ c : Canvas.Store, ((∃ x ∈ c.executions, .event .workflowExecutionStarted id ∈ x.proves) ∨
      ∃ n ∈ c.nodes, .event .workflowExecutionStarted id ∈ n.proves) ↔ ∃ x ∈ c.executions, x.id = id ∧ x.status = .running := by
    intro c
    constructor
    · rintro (⟨x, hx, proved⟩ | ⟨n, -, proved⟩)
      · refine ⟨x, hx, ?_⟩
        cases now : x.status <;> simp [WorkflowExecution.proves, WorkflowExecution.ended, now] at proved ⊢
        exact proved.symm
      · cases WorkflowNodeExecution.subject_of_shows (WorkflowNodeExecution.shows_of_proves proved)
    · rintro ⟨x, hx, rfl, running⟩
      exact Or.inl ⟨x, hx, by simp [WorkflowExecution.proves, running]⟩
  simp only [Ever, proved]

theorem node_started {id : UUID} : .event .nodeExecutionStarted id ∈ canvasMarks.trail s.config.trace ↔
    Ever h w actions fun c => ∃ n ∈ c.nodes, n.id = id ∧ n.status ≠ .pending ∧ n.status ≠ .cancelled := by
  rw [made_iff fresh calm run]
  have proved : ∀ c : Canvas.Store, ((∃ x ∈ c.executions, .event .nodeExecutionStarted id ∈ x.proves) ∨
      ∃ n ∈ c.nodes, .event .nodeExecutionStarted id ∈ n.proves) ↔
      ∃ n ∈ c.nodes, n.id = id ∧ n.status ≠ .pending ∧ n.status ≠ .cancelled := by
    intro c
    constructor
    · rintro (⟨x, -, proved⟩ | ⟨n, hn, proved⟩)
      · cases WorkflowExecution.subject_of_shows (WorkflowExecution.shows_of_proves proved)
      · refine ⟨n, hn, ?_⟩
        cases now : n.status <;> simp [WorkflowNodeExecution.proves, WorkflowNodeExecution.ended, now] at proved ⊢
        all_goals exact proved.symm
    · rintro ⟨n, hn, rfl, begun, live⟩
      exact Or.inr ⟨n, hn, by simp [WorkflowNodeExecution.proves, begun, live]⟩
  simp only [Ever, proved]

end Whole

/-- The events of an execution: that it was created, that it was started if it ever ran, and how it ended. -/
structure ExecutionReported (h : Host) (w : World) (actions : List (Action machine Request)) (trace : List (Event machine))
    (x : WorkflowExecution) : Prop where
  created : recordedEvents trace .workflowExecutionCreated x.id = 1
  started : OnceIff (recordedEvents trace .workflowExecutionStarted x.id)
    (Ever h w actions fun c => ∃ y ∈ c.executions, y.id = x.id ∧ y.status = .running)
  ended : ∀ status eventType, status.event = some eventType →
    OnceIff (recordedEvents trace eventType x.id) (x.status = status)

/-- The events of a node: that it was started if it was ever claimed, and how it ended. -/
structure NodeReported (h : Host) (w : World) (actions : List (Action machine Request)) (trace : List (Event machine))
    (n : WorkflowNodeExecution) : Prop where
  started : OnceIff (recordedEvents trace .nodeExecutionStarted n.id)
    (Ever h w actions fun c => ∃ m ∈ c.nodes, m.id = n.id ∧ m.status ≠ .pending ∧ m.status ≠ .cancelled)
  ended : ∀ status eventType, status.event = some eventType →
    OnceIff (recordedEvents trace eventType n.id) (n.status = status)

/-- When no call failed and all processes have ended, every change of an execution and of a node was reported once. -/
theorem changes_reported_once {h : Host} {w : World} {actions : List (Action machine Request)} {s : State} (fresh : w.Fresh)
    (calm : ∀ a ∈ actions, Calm a) (run : (System.init w).run (body h) actions = some s) (idle : Idle s) :
    (∀ x ∈ s.config.world.canvas.executions, ExecutionReported h w actions s.config.trace x) ∧
      ∀ n ∈ s.config.world.canvas.nodes, NodeReported h w actions s.config.trace n := by
  have reach : Reachable h (fun _ => Calm) w s := System.reach_of_run (fun a ha _ => calm a ha) run
  have kept := (changes_run fresh reach).1
  refine ⟨fun x hx => ⟨?_, ?_, ?_⟩, fun n hn => ⟨?_, ?_⟩⟩
  · rw [recorded_changes reach idle _ (by simp)]
    exact List.count_eq_one_of_mem kept.once (kept.must _ (Or.inl ⟨x, hx, List.mem_cons_self⟩))
  · rw [recorded_changes reach idle _ (by simp)]
    exact onceIff_count kept.once (execution_started fresh calm run)
  · intro status eventType event
    rw [recorded_changes reach idle _ (by cases status <;> cases event <;> simp)]
    exact onceIff_count kept.once (execution_ended fresh reach hx event)
  · rw [recorded_changes reach idle _ (by simp)]
    exact onceIff_count kept.once (node_started fresh calm run)
  · intro status eventType event
    by_cases cancelled : status = .cancelled
    · subst cancelled
      cases event
      exact recorded_cancelled fresh reach idle hn
    · rw [recorded_changes reach idle _ (by cases status <;> cases event <;> first | exact absurd rfl cancelled | simp)]
      exact onceIff_count kept.once (node_ended fresh reach hn event cancelled)

theorem gateRun_calm : ∀ a ∈ gateRun, Calm a := by
  intro a ha
  simp only [gateRun, List.mem_append, List.mem_singleton] at ha
  rcases ha with ((((rfl | ha) | rfl) | ha) | rfl) | ha
  all_goals first | trivial | exact steps_calm ha

theorem gateRun_reported : ∃ s, (System.init gateWorld).run (body sampleHost) gateRun = some s ∧ s.procs.length = 3 ∧
    s.config.world.canvas.executions.map (·.status) = [.succeeded] ∧
    (∀ x ∈ s.config.world.canvas.executions, ExecutionReported sampleHost gateWorld gateRun s.config.trace x) ∧
    ∀ n ∈ s.config.world.canvas.nodes, NodeReported sampleHost gateWorld gateRun s.config.trace n := by
  obtain ⟨s, run, procs, ended, status⟩ : ∃ s, (System.init gateWorld).run (body sampleHost) gateRun = some s ∧
      s.procs.length = 3 ∧ (s.procs.all (·.prog.result.isSome)) = true ∧
      s.config.world.canvas.executions.map (·.status) = [.succeeded] := ⟨_, rfl, rfl, rfl, rfl⟩
  exact ⟨s, run, procs, status, changes_reported_once gateWorld_fresh gateRun_calm run (List.all_eq_true.1 ended)⟩

end Windylane
