import Windylane.Theorems.Coherence
import Windylane.Theorems.Validation

/-! Delays. The time at which a delay is due is computed from a clock reading made after the claim, it is stored with the
    row, and whoever ends the delay or claims a node behind it has read the clock after that. -/

namespace Windylane

open Conc Script Prog

/-- The clock was read as `t`. -/
def Told (trace : List (Event machine)) (t : Time) : Prop := ∃ pid, ⟨.sys .now, .ok t⟩ ∈ history pid trace

/-- The clock never goes back, whoever reads it. -/
def Forward (s : State) (a : Action machine Request) : Prop :=
  ∀ pid env t, a = .step pid env → s.Calling pid (.sys .now) → Told s.config.trace t → t ≤ env.now

section Runs
variable {h : Host} {w : World} {s : State} {allow : State → Action machine Request → Prop} {pid : Nat} {o : Op}

theorem Told.after {c : Config machine} {t : Time} (told : Told c.trace t) (pid : Nat) (env : Env) (o : Op) :
    Told (c.after pid env o).trace t := by
  obtain ⟨actor, read⟩ := told
  refine ⟨actor, ?_⟩
  rw [Config.after_trace]
  by_cases mine : pid = actor
  · rw [history_self mine]
    exact List.mem_append_left _ read
  · rw [history_other mine]
    exact read

/-- What a process knows when it reads the clock, it knew when it had read it. -/
theorem after_run {Φ : machine.Exchange → Time → Prop}
    (tick : ∀ s pid env, Reachable h allow w s → allow s (.step pid env) → s.Calling pid (.sys .now) →
      ∀ c ∈ history pid s.config.trace, Φ c env.now)
    (reach : Reachable h allow w s) : ∀ pid c now, After (history pid s.config.trace) c now → Φ c now := by
  have run := reach.recalls_past (W := fun _ => True)
    (K := fun _ past (c : machine.Exchange) => ∀ now, c = ⟨.sys .now, .ok now⟩ → ∀ before ∈ past, Φ before now) trivial ?_
  · rintro pid c now ⟨before, rest, split, hc⟩
    exact run.2 pid before _ rest split now rfl c hc
  refine fun s pid env o prior allowed calling _ _ => ⟨trivial, fun now read c hc => ?_, fun _ _ known => known⟩
  -- the clock was read just now
  cases o with
  | sys o =>
    cases o with
    | now =>
      simp only [Op.exec_sys, Sigma.mk.injEq, heq_eq_eq, true_and, Except.ok.injEq] at read
      rw [← read]
      exact tick s pid env prior allowed calling c hc
    | _ => cases read
  | _ => cases read

theorem After.told {c : machine.Exchange} {now : Time} {trace : List (Event machine)}
    (after : After (history pid trace) c now) : Told trace now := by
  obtain ⟨before, rest, split, -⟩ := after
  exact ⟨pid, by rw [split]; simp⟩

/-! ### The times of a row -/

/-- The times of a row were read, and a row that was claimed has a start time. -/
structure Dated (trace : List (Event machine)) (n : WorkflowNodeExecution) : Prop where
  started : ∀ t, n.startedAt = some t → Told trace t
  completed : n.status = .succeeded → ∀ t, n.completedAt = some t → Told trace t
  claimed : n.status = .queued ∨ n.status = .running → n.startedAt ≠ none

theorem Dated.becomes {trace : List (Event machine)} {row node : WorkflowNodeExecution} {now : Time} (dated : Dated trace row)
    (opened : row.status = .queued ∨ row.status = .running) (told : Told trace now) (becomes : Becomes row now node) :
    Dated trace { node with updatedAt := now } := by
  cases becomes with
  | opened attempt status live =>
    refine ⟨dated.started, fun succeeded => ?_, fun _ => dated.claimed opened⟩
    have succeeded : status = .succeeded := succeeded
    rcases live with rfl | rfl <;> cases succeeded
  | succeeded attempt output =>
    refine ⟨dated.started, fun _ t at' => ?_, fun _ => dated.claimed opened⟩
    cases at'
    exact told
  | failed attempt code message => exact ⟨dated.started, nofun, fun _ => dated.claimed opened⟩

theorem Executed.dated {past : List machine.Exchange} {trace : List (Event machine)} {x : WorkflowExecution} {m : WorkflowNode}
    {base node : WorkflowNodeExecution} {now : Time} (executed : Executed h past x m base now node) (dated : Dated trace base)
    (running : base.status = .running) (told : Told trace now) : Dated trace node := by
  have claimed := dated.claimed (Or.inr running)
  have ended : ∀ t, some now = some t → Told trace t := by
    rintro t ⟨⟩
    exact told
  cases executed with
  | trigger _ => exact ⟨dated.started, fun _ => ended, fun _ => claimed⟩
  | condition _ _ => exact ⟨dated.started, fun _ => ended, fun _ => claimed⟩
  | delay _ _ _ => exact ⟨dated.started, nofun, fun _ => claimed⟩
  | task _ _ _ _ _ => exact ⟨dated.started, nofun, fun _ => claimed⟩
  | webhook _ _ => exact ⟨dated.started, nofun, fun _ => claimed⟩

theorem dated_law : RowLaw h allow w fun c n => Dated c.trace n where
  lasts := by
    intro s pid env o n _ _ _ dated
    exact ⟨fun t at' => (dated.started t at').after pid env o,
      fun succeeded t at' => (dated.completed succeeded t at').after pid env o, dated.claimed⟩
  new := by
    rintro c n ⟨pending, -, -, started, -, -⟩
    refine ⟨fun t at' => ?_, fun succeeded => ?_, fun opened => ?_⟩
    · rw [started] at at'
      cases at'
    · rw [pending] at succeeded
      cases succeeded
    · rw [pending] at opened
      rcases opened with opened | opened <;> cases opened
  claim := by
    rintro s pid n orgID now - - pending ready dated
    obtain ⟨_, _, _, _, _, -, -, -, -, -, -, -, after⟩ := ready
    refine ⟨fun t at' => ?_, by simp [Canvas.claimed], fun _ => ?_⟩
    · cases started : n.startedAt with
      | none =>
        simp only [Canvas.claimed, started, Option.none_or, Option.some.injEq] at at'
        exact at' ▸ after.told
      | some t' =>
        simp only [Canvas.claimed, started, Option.some_or, Option.some.injEq] at at'
        exact dated.started t (at' ▸ started)
    · cases started : n.startedAt <;> simp [Canvas.claimed, started]
  store := by
    intro s pid node expected _ write saw
    have told : ∀ {row now}, Ticked (history pid s.config.trace) row now → Told s.config.trace now := by
      rintro row now ⟨_, _, after⟩
      exact after.told
    cases write with
    | skip held ticked =>
      have dated := saw _ held.saw
      exact ⟨dated.started, by simp, fun _ => dated.claimed (Or.inr held.running)⟩
    | execute held ticked _ executed => exact executed.dated (saw _ held.saw) held.running (told ticked)
    | fail held _ _ =>
      have dated := saw _ held.saw
      exact ⟨dated.started, by simp, fun _ => dated.claimed (Or.inr held.running)⟩
    | observe seen opened ticked observed _ => exact (saw _ seen).becomes opened (told ticked) (observed.becomes opened)
  close := by
    rintro c n code message now - dated
    exact ⟨dated.started, by simp [Canvas.closed], fun opened => by rcases opened with opened | opened <;> cases opened⟩

/-- The clock that is read after a row is not before the times of the row. -/
theorem ticked_le (fresh : w.Fresh) (reach : Reachable h Forward w s) {c : machine.Exchange} {now : Time}
    (after : After (history pid s.config.trace) c now) {row : WorkflowNodeExecution} (read : row ∈ readRows c) :
    (∀ t, row.startedAt = some t → t ≤ now) ∧ (row.status = .succeeded → ∀ t, row.completedAt = some t → t ≤ now) := by
  refine after_run (Φ := fun c now => ∀ row ∈ readRows c, (∀ t, row.startedAt = some t → t ≤ now) ∧
    (row.status = .succeeded → ∀ t, row.completedAt = some t → t ≤ now)) ?_ reach pid c now after row read
  intro s pid env reach allowed calling c hc row read
  have dated := (rows_run dated_law fresh reach).2 pid row ⟨c, hc, read⟩
  exact ⟨fun t at' => allowed pid env t rfl calling (dated.started t at'),
    fun succeeded t at' => allowed pid env t rfl calling (dated.completed succeeded t at')⟩

/-! ### When a delay is due -/

/-- The node of the row is a delay, and its time is over at `t`. -/
def Due (c : Canvas.Store) (n : WorkflowNodeExecution) (t : Time) : Prop :=
  ∃ d m config started, Pinned c n.workflowExecutionID d ∧ m ∈ d.nodeList ∧ m.id = n.nodeID ∧
    parseWorkflowDelayConfig m.config = .ok config ∧ n.startedAt = some started ∧
    started + seconds config.durationSeconds ≤ t

structure DelayKept (c : Canvas.Store) (n : WorkflowNodeExecution) : Prop where
  available : n.nodeType = .delay → ∀ t, n.availableAt = some t → Due c n t
  succeeded : n.nodeType = .delay → n.status = .succeeded → ∃ t, n.completedAt = some t ∧ Due c n t

theorem Due.of_row {c : Canvas.Store} {n n' : WorkflowNodeExecution} {t t' : Time} (due : Due c n t)
    (execution : n'.workflowExecutionID = n.workflowExecutionID) (node : n'.nodeID = n.nodeID)
    (started : n'.startedAt = n.startedAt) (later : t ≤ t') : Due c n' t' := by
  obtain ⟨d, m, config, at', pinned, hm, hid, parsed, hs, le⟩ := due
  exact ⟨d, m, config, at', execution ▸ pinned, hm, hid.trans node.symm, parsed, started.trans hs, le.trans later⟩

theorem Observation.delayKept {past : List machine.Exchange} {c : Canvas.Store} {row node : WorkflowNodeExecution} {now : Time}
    (observed : Observation h past row now node) (opened : row.status = .queued ∨ row.status = .running)
    (links : Linked row) (kept : DelayKept c row) : DelayKept c { node with updatedAt := now } := by
  -- a row with a task or a delivery is not a delay
  have other : row.nodeType ≠ .delay → node.nodeType = row.nodeType → DelayKept c { node with updatedAt := now } :=
    fun other same => ⟨fun type => absurd (same.symm.trans type) other, fun type => absurd (same.symm.trans type) other⟩
  cases observed with
  | @task _ id task link _ =>
    have type := links.task (by simp [link])
    exact other (by simp [type]) (mirrorTask_observed row task now).same.nodeType
  | @delivery _ id delivery _ link _ =>
    have type := links.webhook (by simp [link])
    exact other (by simp [type]) (mirrorDelivery_observed row delivery now).same.nodeType
  | @delay availableAt _ _ type due =>
    have due := kept.available type availableAt due
    unfold resumeDelay
    split
    · rename_i elapsed
      refine ⟨fun type t at' => (kept.available type t at').of_row rfl rfl rfl le_rfl, fun _ _ => ?_⟩
      exact ⟨now, rfl, due.of_row rfl rfl rfl elapsed⟩
    · refine ⟨fun type t at' => (kept.available type t at').of_row rfl rfl rfl le_rfl, fun _ succeeded => ?_⟩
      have succeeded : row.status = .succeeded := succeeded
      rw [succeeded] at opened
      rcases opened with opened | opened <;> cases opened
  | same _ _ queued _ =>
    refine ⟨fun type t at' => (kept.available type t at').of_row rfl rfl rfl le_rfl, fun _ succeeded => ?_⟩
    have succeeded : row.status = .succeeded := succeeded
    rw [succeeded] at queued
    cases queued

theorem delay_law (fresh : w.Fresh) : RowLaw h Forward w fun c n => DelayKept c.world.canvas n where
  lasts := by
    intro s pid env o n reach _ calling kept
    have last : ∀ t, Due s.config.world.canvas n t → Due (s.config.after pid env o).world.canvas n t := by
      rintro t ⟨d, m, config, at', pinned, rest⟩
      exact ⟨d, m, config, at', pinned.step (canvas_step fresh reach calling env), rest⟩
    refine ⟨fun type t at' => last t (kept.available type t at'), fun type succeeded => ?_⟩
    obtain ⟨t, at', due⟩ := kept.succeeded type succeeded
    exact ⟨t, at', last t due⟩
  new := by
    rintro c n ⟨pending, -, -, -, -, unlinked⟩
    refine ⟨fun _ t at' => ?_, fun _ succeeded => ?_⟩
    · rw [unlinked.delay] at at'
      cases at'
    · rw [pending] at succeeded
      cases succeeded
  claim := by
    rintro s pid n orgID now reach hn pending - -
    obtain ⟨r, d, -, hn, -, run⟩ := (canvas_inv fresh reach).run_of_node hn
    refine ⟨fun _ t at' => ?_, nofun⟩
    have at' : n.availableAt = some t := at'
    rw [((run.rows n hn).untouched pending).delay] at at'
    cases at'
  store := by
    intro s pid node expected reach write saw
    have inv := canvas_inv fresh reach
    have recalled := recalled_run fresh reach pid
    -- a claimed row of a delay has no time yet
    have unset : ∀ {base}, Held (history pid s.config.trace) base → base.nodeType = .delay → ∀ t, base.availableAt ≠ some t := by
      intro base held type t at'
      rw [held.delay type] at at'
      cases at'
    cases write with
    | skip held _ => exact ⟨fun type t at' => absurd at' (unset held type t), nofun⟩
    | fail held _ _ => exact ⟨fun type t at' => absurd at' (unset held type t), nofun⟩
    | observe seen opened _ observed _ =>
      have links := ((rows_run (coherent_law fresh) fresh reach).2 pid _ seen).2
      exact observed.delayKept opened links (saw _ seen)
    | @execute x d m base node now held ticked assigned executed =>
      have type := assigned.type inv (held.saw.stands recalled) recalled
      have other : base.nodeType ≠ .delay → node.nodeType = base.nodeType → DelayKept s.config.world.canvas node :=
        fun other same => ⟨fun is => absurd (same.symm.trans is) other, fun is => absurd (same.symm.trans is) other⟩
      cases executed with
      | trigger is => exact other (by simp [type, is]) rfl
      | condition _ is => exact other (by simp [type, is]) rfl
      | task _ _ is _ _ => exact other (by simp [type, is]) rfl
      | webhook is _ => exact other (by simp [type, is]) rfl
      | delay config is parsed =>
        refine ⟨fun _ t at' => ?_, nofun⟩
        obtain ⟨c, read, after⟩ := ticked
        have dated := (rows_run dated_law fresh reach).2 pid base held.saw
        obtain ⟨started, at''⟩ := Option.ne_none_iff_exists'.1 (dated.claimed (Or.inr held.running))
        have le := (ticked_le fresh reach after read).1 started at''
        obtain ⟨r, hr, -, pinned⟩ := assigned.plan.pinned inv.versions recalled
        cases at'
        exact ⟨d, m, config, started, ⟨r, assigned.executionID ▸ hr, pinned⟩, assigned.member, assigned.nodeID, parsed, at'',
          Int.add_le_add_right le _⟩
  close := by
    rintro c n code message now - kept
    exact ⟨fun type t at' => (kept.available type t at').of_row rfl rfl rfl le_rfl, nofun⟩

/-! ### What is behind a delay -/

/-- What leads to the node was resolved when it started, at `t`. -/
def Cleared (c : Canvas.Store) (n : WorkflowNodeExecution) (t : Time) : Prop :=
  ∃ d, Pinned c n.workflowExecutionID d ∧ (n.nodeType ≠ .trigger → ∀ e ∈ d.incoming n.nodeID, ∃ p ∈ c.nodes,
    p.workflowExecutionID = n.workflowExecutionID ∧ p.nodeID = e.source ∧ p.status.terminal = true ∧
    (p.status = .succeeded → ∀ t', p.completedAt = some t' → t' ≤ t))

theorem mem_of_stateOf {nodes : List WorkflowNodeExecution} {id : String} {n : WorkflowNodeExecution}
    (found : stateOf nodes id = some n) : n ∈ nodes ∧ n.nodeID = id :=
  ⟨List.mem_reverse.1 (List.mem_of_find?_eq_some found), by simpa using List.find?_some found⟩

theorem Cleared.of_row {c : Canvas.Store} {n n' : WorkflowNodeExecution} {t : Time} (cleared : Cleared c n t)
    (same : SameNode n n') : Cleared c n' t := by
  obtain ⟨d, pinned, sources⟩ := cleared
  rw [← same.workflowExecutionID] at pinned
  refine ⟨d, pinned, ?_⟩
  rw [same.nodeType, same.nodeID, same.workflowExecutionID]
  exact sources

/-- A claim is made for a node whose sources are resolved. -/
theorem ClaimReady.cleared (fresh : w.Fresh) (reach : Reachable h Forward w s) {orgID : UUID} {n : WorkflowNodeExecution}
    {now : Time} (hn : n ∈ s.config.world.canvas.nodes)
    (ready : ClaimReady (history pid s.config.trace) orgID n.workflowExecutionID n.nodeID now) :
    Cleared s.config.world.canvas n now := by
  obtain ⟨x, d, m, nodes, ready, plans, -, execution, hm, hid, decided, ready', after⟩ := ready
  have inv := canvas_inv fresh reach
  have recalled := recalled_run fresh reach pid
  obtain ⟨r, hr, -, pinned⟩ := plans.pinned inv.versions recalled
  rw [execution] at hr
  obtain ⟨r', d', hr', hn, pinned', run⟩ := inv.run_of_node hn
  rw [hr] at hr'
  cases hr'
  rw [pinned] at pinned'
  cases pinned'
  refine ⟨d, ⟨r, hr, pinned⟩, fun other e he => ?_⟩
  have type := run.type_eq hm hn (.refl n) hid
  have resolved : Resolved nodes e.source := by
    rw [← hid] at he
    obtain ⟨runs, skips⟩ := workflowNodeReadiness_spec decided ready'
    cases ready with
    | waiting => exact absurd rfl ready'
    | runnable =>
      rcases runs rfl with trigger | ⟨-, all, -⟩
      · exact absurd (type.symm.trans trigger) other
      · exact all e he
    | shouldSkip => exact (skips rfl).2.1 e he
  obtain ⟨p, found, status⟩ := resolved
  obtain ⟨hp, source⟩ := mem_of_stateOf found
  have ended : p.status.terminal = true := by
    rcases status with status | status <;> rw [status] <;> rfl
  have read : ⟨.canvas (.getWorkflowNodeExecutions orgID n.workflowExecutionID), .ok nodes⟩ ∈ history pid s.config.trace := by
    obtain ⟨before, rest, split, hc⟩ := after
    rw [split]
    exact List.mem_append_left _ hc
  have saw : Saw (history pid s.config.trace) p := ⟨_, read, hp⟩
  have owned := answers_run fresh reach pid _ read p hp
  exact ⟨p, (saw.stands recalled).stored ended, owned.2, source, ended, (ticked_le fresh reach after hp).2⟩

theorem cleared_law (fresh : w.Fresh) :
    RowLaw h Forward w fun c n => ∀ t, n.startedAt = some t → Cleared c.world.canvas n t where
  lasts := by
    intro s pid env o n reach _ calling cleared t at'
    obtain ⟨d, pinned, sources⟩ := cleared t at'
    have step := canvas_step fresh reach calling env
    refine ⟨d, pinned.step step, fun other e he => ?_⟩
    obtain ⟨p, hp, execution, source, ended, before⟩ := sources other e he
    exact ⟨p, (((canvas_inv fresh reach).standing hp).step step).stored ended, execution, source, ended, before⟩
  new := by
    rintro c n ⟨-, -, -, started, -, -⟩ t at'
    rw [started] at at'
    cases at'
  claim := by
    rintro s pid n orgID now reach hn - ready cleared t at'
    have cleared : Cleared s.config.world.canvas n t := by
      cases started : n.startedAt with
      | none =>
        simp only [Canvas.claimed, started, Option.none_or, Option.some.injEq] at at'
        exact at' ▸ ready.cleared fresh reach hn
      | some t' =>
        simp only [Canvas.claimed, started, Option.some_or, Option.some.injEq] at at'
        exact cleared t (at' ▸ started)
    exact cleared.of_row ⟨rfl, rfl, rfl, rfl, rfl, rfl⟩
  store := by
    intro s pid node expected reach write saw t at'
    obtain ⟨base, seen, same, started⟩ := write.source
    exact (saw base seen t (started.symm.trans at')).of_row same
  close := by
    rintro c n code message now - cleared t at'
    exact (cleared t at').of_row ⟨rfl, rfl, rfl, rfl, rfl, rfl⟩

/-- A delay that succeeded took its time, and nothing behind it started earlier. -/
theorem delays_kept (fresh : w.Fresh) (reach : Reachable h Forward w s) {executionID : UUID} {r : Run}
    (hr : runOf s.config.world.canvas executionID = some r) {d : WorkflowDefinition}
    (pinned : definitionOf s.config.world.canvas r.execution = some d)
    (accepted : (validateWorkflowDefinition h.uuidParse d).valid = true) {m : WorkflowNode} (hm : m ∈ d.nodeList)
    (type : m.type = .delay) {config : WorkflowDelayConfig} (parsed : parseWorkflowDelayConfig m.config = .ok config)
    {n : WorkflowNodeExecution} (hn : n ∈ r.nodes) (hid : n.nodeID = m.id) (succeeded : n.status = .succeeded) :
    ∃ started completed, n.startedAt = some started ∧ n.completedAt = some completed ∧
      started + seconds config.durationSeconds ≤ completed ∧
      ∀ e ∈ d.edgeList, e.source = m.id → ∀ n' ∈ r.nodes, n'.nodeID = e.target → ∀ t, n'.startedAt = some t →
        started + seconds config.durationSeconds ≤ t := by
  obtain ⟨d', pinned', run⟩ := (canvas_inv fresh reach).runs executionID r hr
  rw [pinned] at pinned'
  cases pinned'
  have stored : ∀ {n'}, n' ∈ r.nodes → n' ∈ s.config.world.canvas.nodes ∧ n'.workflowExecutionID = executionID := by
    intro n' hn'
    rw [(runOf_eq_some.1 hr).2] at hn'
    obtain ⟨hn', execution⟩ := List.mem_filter.1 hn'
    exact ⟨hn', of_decide_eq_true execution⟩
  obtain ⟨completed, at', due⟩ := ((rows_run (delay_law fresh) fresh reach).1 n (stored hn).1).succeeded
    ((run.type_eq hm hn (.refl n) hid.symm).symm.trans type) succeeded
  obtain ⟨d', m', config', started, pinned', hm', hid', parsed', started', le⟩ := due
  rw [(stored hn).2] at pinned'
  cases pinned'.unique hr pinned
  cases run.node_eq hm hm' (hid.symm.trans hid'.symm)
  rw [parsed] at parsed'
  cases parsed'
  refine ⟨started, completed, started', at', le, fun e he source n' hn' target t after => ?_⟩
  obtain ⟨d', pinned', sources⟩ := (rows_run (cleared_law fresh) fresh reach).1 n' (stored hn').1 t after
  rw [(stored hn').2] at pinned'
  cases pinned'.unique hr pinned
  have other : n'.nodeType ≠ .trigger := by
    intro trigger
    obtain ⟨m', hm', hid', type'⟩ := run.node_of_row hn'
    exact (publishable_of_valid accepted).triggers m' hm' (type'.trans trigger) e he (target.symm.trans hid'.symm)
  obtain ⟨p, hp, execution, hp', -, before⟩ := sources other e (List.mem_filter.2 ⟨he, by simp [target]⟩)
  rw [(stored hn').2] at execution
  have same : p = n := by
    refine Table.eq_of_key run.nodeIDs ?_ hn (hp'.trans (source.trans hid.symm))
    rw [(runOf_eq_some.1 hr).2]
    exact List.mem_filter.2 ⟨hp, by simp [execution]⟩
  subst same
  exact le.trans (before succeeded completed at')

end Runs

/-- The clock does not go back here. -/
def forward (s : State) : Action machine Request → Bool
  | .step pid env =>
    match s.procs[pid]? with
    | some ⟨_, .call (.sys .now) _, true⟩ => s.config.trace.all fun
      | ⟨_, .sys .now, .ok t⟩ => t ≤ env.now
      | _ => true
    | _ => true
  | _ => true

theorem forward_sound {s : State} {a : Action machine Request} (checked : forward s a = true) : Forward s a := by
  rintro pid env t rfl ⟨request, k, hp⟩ ⟨actor, read⟩
  simp only [forward, hp, List.all_eq_true] at checked
  obtain ⟨⟨_, o, answer⟩, he, -, same⟩ := exists_of_mem_history read
  cases same
  exact of_decide_eq_true (checked _ he)

/-- A pause of five seconds before a task. -/
def pauseDefinition : WorkflowDefinition where
  nodes := some [
    ⟨"start", .trigger, "", some []⟩,
    ⟨"pause", .delay, "", some [("duration_seconds", .num 5)]⟩,
    ⟨"work", .task, "", some [("queue", .str "jobs")]⟩]
  edges := some [⟨"e1", "start", "pause", .empty⟩, ⟨"e2", "pause", "work", .empty⟩]

def pauseWorld : World :=
  sampleWorld [{ sampleWorkflow with definition := pauseDefinition }] [{ sampleVersion with definition := pauseDefinition }]

/-- The workflow is started, and advanced when the pause is over, until the task is claimed. -/
def pauseRun : List (Action machine Request) :=
  [.spawn (.startExecution (sampleStart (.json .null)))] ++ steps 0 0 (idsFrom 100 36) ++
    [.spawn (.advanceExecution ⟨1⟩ ⟨2⟩ ⟨103⟩)] ++ steps 1 (seconds 5) (idsFrom 500 15)

-- the duration is read by computing with rationals
unseal Rat.add Rat.sub Rat.mul Rat.inv in
set_option maxRecDepth 4000 in
theorem pauseRun_kept : ∃ s r n n', System.runChecked (body sampleHost) forward (System.init pauseWorld) pauseRun = some s ∧
    runOf s.config.world.canvas ⟨103⟩ = some r ∧ n ∈ r.nodes ∧ n.nodeID = "pause" ∧ n.status = .succeeded ∧
    n' ∈ r.nodes ∧ n'.nodeID = "work" ∧ ∃ started completed t, n.startedAt = some started ∧ n.completedAt = some completed ∧
      n'.startedAt = some t ∧ started + seconds 5 ≤ completed ∧ started + seconds 5 ≤ t := by
  have run : ∃ s r n n' t, System.runChecked (body sampleHost) forward (System.init pauseWorld) pauseRun = some s ∧
      runOf s.config.world.canvas ⟨103⟩ = some r ∧ definitionOf s.config.world.canvas r.execution = some pauseDefinition ∧
      r.nodes.tail = [n, n'] ∧ n.nodeID = "pause" ∧ n.status = .succeeded ∧ n'.nodeID = "work" ∧ n'.startedAt = some t :=
    ⟨_, _, _, _, _, rfl, rfl, rfl, rfl, rfl, rfl, rfl, rfl⟩
  obtain ⟨s, r, n, n', t, run, hr, pinned, rows, pause, succeeded, work, at'⟩ := run
  have hn : n ∈ r.nodes := List.mem_of_mem_tail (by simp [rows])
  have hn' : n' ∈ r.nodes := List.mem_of_mem_tail (by simp [rows])
  have fresh : pauseWorld.Fresh := ⟨rfl, fun _ => rfl, rfl, rfl, rfl, List.nodup_singleton _⟩
  have reach : Reachable sampleHost Forward pauseWorld s :=
    System.reach_of_checked (fun _ _ _ checked => forward_sound checked) run
  obtain ⟨started, completed, h₁, h₂, elapsed, behind⟩ := delays_kept fresh reach hr pinned (by decide +kernel)
    (m := ⟨"pause", .delay, "", some [("duration_seconds", .num 5)]⟩) (by simp [pauseDefinition, WorkflowDefinition.nodeList])
    rfl (show parseWorkflowDelayConfig _ = .ok ⟨5⟩ by decide +kernel) hn pause succeeded
  have edge : (⟨"e2", "pause", "work", .empty⟩ : WorkflowEdge) ∈ pauseDefinition.edgeList :=
    List.mem_cons_of_mem _ List.mem_cons_self
  exact ⟨s, r, n, n', run, hr, hn, pause, succeeded, hn', work, started, completed, t, h₁, h₂, at', elapsed,
    behind _ edge rfl n' hn' work t at'⟩

end Windylane
