import Windylane.Machine
import Windylane.Theorems.Runs

/-! The workflow tables as a set of executions. A statement of the store that the services call moves one
    execution by one step, starts a new one, or changes nothing (`CanvasStep`). -/

namespace Windylane

open Canvas

/-- An execution and its node rows, as the tables hold them. -/
def runOf (s : Store) (id : UUID) : Option Run :=
  (s.executions.find? fun x => x.id = id).map fun x => ⟨x, s.nodes.filter fun n => n.workflowExecutionID = id⟩

/-- The definition of the version that an execution is pinned to. -/
def definitionOf (s : Store) (x : WorkflowExecution) : Option WorkflowDefinition :=
  (s.versions.find? fun v => v.id = x.workflowVersionID).map (·.definition)

/-- The version `v` is the one the execution `x` is pinned to. -/
structure Pins (v : WorkflowVersion) (x : WorkflowExecution) : Prop where
  id : v.id = x.workflowVersionID
  orgID : v.orgID = x.orgID
  workflowID : v.workflowID = x.workflowID
  version : v.version = x.workflowVersion

structure CanvasInv (strict : Prop) (done : WorkflowNodeExecution → Prop) (s : Store) : Prop where
  versions : (s.versions.map (·.id)).Nodup
  ids : (s.executions.map (·.id)).Nodup
  owners : ∀ id ∈ s.nodes.map (·.workflowExecutionID), id ∈ s.executions.map (·.id)
  runs : ∀ id r, runOf s id = some r → ∃ d, definitionOf s r.execution = some d ∧ RunInv ⟨d, strict, done⟩ r
  pins : ∀ id r, runOf s id = some r → ∃ v ∈ s.versions, Pins v r.execution

/-- `s'` is `s` with the execution `id` changed to `r`. -/
structure Touches (s s' : Store) (id : UUID) (r : Run) : Prop where
  workflows : s'.workflows = s.workflows
  versions : s'.versions = s.versions
  ids : s'.executions.map (·.id) = s.executions.map (·.id)
  owners : s'.nodes.map (·.workflowExecutionID) = s.nodes.map (·.workflowExecutionID)
  after : runOf s' id = some r
  others : ∀ other, other ≠ id → runOf s' other = runOf s other

inductive CanvasStep (strict : Prop) (done : WorkflowNodeExecution → Prop) (s : Store) : Store → Prop
  | stay : CanvasStep strict done s s
  | start (x : WorkflowExecution) (nodes : List WorkflowNodeExecution) (d : WorkflowDefinition)
      (fresh : x.id ∉ s.executions.map (·.id)) (pinned : definitionOf s x = some d)
      (version : ∃ v ∈ s.versions, Pins v x) (initial : Initial d ⟨x, nodes⟩) :
      CanvasStep strict done s { s with executions := s.executions ++ [x], nodes := s.nodes ++ nodes }
  /-- Workflows are edited, and versions added. -/
  | edit (workflows : List Workflow) (added : List WorkflowVersion)
      (fresh : (s.versions.map (·.id)).Nodup → ((s.versions ++ added).map (·.id)).Nodup) :
      CanvasStep strict done s { s with workflows := workflows, versions := s.versions ++ added }
  | run {s' : Store} (id : UUID) (r r' : Run) (d : WorkflowDefinition) (before : runOf s id = some r)
      (pinned : definitionOf s r.execution = some d) (step : RunStep ⟨d, strict, done⟩ r r')
      (touches : Touches s s' id r') : CanvasStep strict done s s'

theorem runOf_eq_some {s : Store} {id : UUID} {r : Run} :
    runOf s id = some r ↔ s.executions.find? (fun x => x.id = id) = some r.execution ∧
      r.nodes = s.nodes.filter fun n => n.workflowExecutionID = id := by
  unfold runOf
  rw [Option.map_eq_some_iff]
  constructor
  · rintro ⟨x, hx, rfl⟩
    exact ⟨hx, rfl⟩
  · rintro ⟨hx, hn⟩
    exact ⟨_, hx, by rw [← hn]⟩

theorem runOf_id {s : Store} {id : UUID} {r : Run} (h : runOf s id = some r) : r.execution.id = id := by
  simpa using List.find?_some (runOf_eq_some.1 h).1

theorem runOf_mem {s : Store} {id : UUID} {r : Run} (h : runOf s id = some r) : r.execution ∈ s.executions :=
  List.mem_of_find?_eq_some (runOf_eq_some.1 h).1

theorem definitionOf_same {s s' : Store} (versions : s.versions <+: s'.versions) {x x' : WorkflowExecution}
    (same : SameExecution x x') {d : WorkflowDefinition} (pinned : definitionOf s x = some d) :
    definitionOf s' x' = some d := by
  obtain ⟨added, versions⟩ := versions
  obtain ⟨v, found, hd⟩ := Option.map_eq_some_iff.1 pinned
  simp [definitionOf, ← versions, same.workflowVersionID, List.find?_append, found, hd]

section Steps
variable {strict : Prop} {done : WorkflowNodeExecution → Prop} {s s' : Store}

/-- The execution of a row is the one found by its id. -/
theorem CanvasInv.runOf_of_mem (h : CanvasInv strict done s) {x : WorkflowExecution} (hx : x ∈ s.executions) :
    runOf s x.id = some ⟨x, s.nodes.filter fun n => n.workflowExecutionID = x.id⟩ :=
  runOf_eq_some.2 ⟨Table.find?_key h.ids hx, rfl⟩

/-- The tables after an execution was inserted. -/
abbrev started (s : Store) (x : WorkflowExecution) (nodes : List WorkflowNodeExecution) : Store :=
  { s with executions := s.executions ++ [x], nodes := s.nodes ++ nodes }

theorem CanvasInv.runOf_started_self (h : CanvasInv strict done s) {x : WorkflowExecution}
    {nodes : List WorkflowNodeExecution} (fresh : x.id ∉ s.executions.map (·.id))
    (owned : ∀ n ∈ nodes, n.workflowExecutionID = x.id) : runOf (started s x nodes) x.id = some ⟨x, nodes⟩ := by
  refine runOf_eq_some.2 ⟨?_, ?_⟩
  · have none : s.executions.find? (fun y => y.id = x.id) = none :=
      List.find?_eq_none.2 fun y hy => by simpa using fun he => fresh (List.mem_map.2 ⟨y, hy, he⟩)
    simp [List.find?_append, none]
  · have old : s.nodes.filter (fun n => n.workflowExecutionID = x.id) = [] :=
      List.filter_eq_nil_iff.2 fun n hn => by
        simpa using fun he => fresh (h.owners x.id (List.mem_map.2 ⟨n, hn, he⟩))
    have new : nodes.filter (fun n => n.workflowExecutionID = x.id) = nodes :=
      List.filter_eq_self.2 fun n hn => by simpa using owned n hn
    simp only [List.filter_append, old, new, List.nil_append]

theorem runOf_started_other {x : WorkflowExecution} {nodes : List WorkflowNodeExecution} {id : UUID} (ne : id ≠ x.id)
    (owned : ∀ n ∈ nodes, n.workflowExecutionID = x.id) : runOf (started s x nodes) id = runOf s id := by
  have new : nodes.filter (fun n => n.workflowExecutionID = id) = [] :=
    List.filter_eq_nil_iff.2 fun n hn => by
      rw [owned n hn]
      simpa using Ne.symm ne
  simp [runOf, List.find?_append, new, Ne.symm ne]

theorem CanvasInv.start (h : CanvasInv strict done s) {x : WorkflowExecution} {nodes : List WorkflowNodeExecution}
    {d : WorkflowDefinition} (fresh : x.id ∉ s.executions.map (·.id)) (pinned : definitionOf s x = some d)
    (version : ∃ v ∈ s.versions, Pins v x) (initial : Initial d ⟨x, nodes⟩) :
    CanvasInv strict done (started s x nodes) := by
  have owned : ∀ n ∈ nodes, n.workflowExecutionID = x.id := fun n hn => (initial.owned n hn).2
  refine ⟨h.versions, ?_, ?_, ?_, ?_⟩
  · rw [List.map_append, List.nodup_append]
    refine ⟨h.ids, by simp, fun a ha b hb he => fresh ?_⟩
    rw [List.map_singleton, List.mem_singleton] at hb
    rw [← hb, ← he]
    exact ha
  · intro id hid
    rw [List.map_append, List.mem_append] at hid ⊢
    rcases hid with hid | hid
    · exact Or.inl (h.owners id hid)
    · obtain ⟨n, hn, rfl⟩ := List.mem_map.1 hid
      exact Or.inr (by rw [owned n hn]; simp)
  · intro id r hr
    by_cases he : id = x.id
    · subst he
      rw [h.runOf_started_self fresh owned] at hr
      cases hr
      exact ⟨d, pinned, .initial initial⟩
    · rw [runOf_started_other he owned] at hr
      exact h.runs id r hr
  · intro id r hr
    by_cases he : id = x.id
    · subst he
      rw [h.runOf_started_self fresh owned] at hr
      cases hr
      exact version
    · rw [runOf_started_other he owned] at hr
      exact h.pins id r hr

theorem Pins.same {v : WorkflowVersion} {x y : WorkflowExecution} (h : Pins v x) (same : SameExecution x y) : Pins v y :=
  ⟨h.id.trans same.workflowVersionID.symm, h.orgID.trans same.orgID.symm, h.workflowID.trans same.workflowID.symm,
    h.version.trans same.workflowVersion.symm⟩

/-- Every step keeps the invariant. -/
theorem CanvasStep.inv (step : CanvasStep strict done s s') (h : CanvasInv strict done s) : CanvasInv strict done s' := by
  cases step with
  | stay => exact h
  | start x nodes d fresh pinned version initial => exact h.start fresh pinned version initial
  | edit workflows added fresh =>
    have grows : s.versions <+: s.versions ++ added := List.prefix_append _ _
    refine ⟨fresh h.versions, h.ids, h.owners, fun id r hr => ?_, fun id r hr => ?_⟩
    · obtain ⟨d, pinned, inv⟩ := h.runs id r hr
      exact ⟨d, definitionOf_same grows (.refl _) pinned, inv⟩
    · obtain ⟨v, hv, pins⟩ := h.pins id r hr
      exact ⟨v, List.mem_append_left _ hv, pins⟩
  | run id r r' d before pinned step touches =>
    have grows : s.versions <+: s'.versions := touches.versions ▸ List.prefix_refl _
    refine ⟨touches.versions ▸ h.versions, touches.ids ▸ h.ids, touches.ids ▸ touches.owners ▸ h.owners, ?_, ?_⟩
    · intro other q hq
      by_cases he : other = id
      · subst he
        rw [touches.after] at hq
        cases hq
        obtain ⟨d', pinned', inv⟩ := h.runs other r before
        rw [pinned] at pinned'
        cases pinned'
        exact ⟨d, definitionOf_same grows step.same pinned, step.inv inv⟩
      · rw [touches.others other he] at hq
        obtain ⟨d', pinned', inv⟩ := h.runs other q hq
        exact ⟨d', definitionOf_same grows (.refl _) pinned', inv⟩
    · intro other q hq
      rw [touches.versions]
      by_cases he : other = id
      · subst he
        rw [touches.after] at hq
        cases hq
        obtain ⟨v, hv, pins⟩ := h.pins other r before
        exact ⟨v, hv, pins.same step.same⟩
      · rw [touches.others other he] at hq
        exact h.pins other q hq

theorem CanvasInv.later {done' : WorkflowNodeExecution → Prop} (hd : ∀ n, done n → done' n)
    (h : CanvasInv strict done s) : CanvasInv strict done' s :=
  { h with
    runs := fun id r hr => by
      obtain ⟨d, pinned, inv⟩ := h.runs id r hr
      exact ⟨d, pinned, inv.later hd⟩ }

theorem CanvasStep.versions (step : CanvasStep strict done s s') : s.versions <+: s'.versions := by
  cases step with
  | stay | start => exact List.prefix_refl _
  | edit => exact List.prefix_append _ _
  | run id r r' d before pinned step touches => exact touches.versions ▸ List.prefix_refl _

/-- An execution that is there stays, and moves by steps. -/
theorem CanvasStep.runOf (step : CanvasStep strict done s s') {id : UUID} {r : Run}
    (hr : Windylane.runOf s id = some r) : ∃ r', Windylane.runOf s' id = some r' ∧
      (r' = r ∨ ∃ d, definitionOf s r.execution = some d ∧ RunStep ⟨d, strict, done⟩ r r') := by
  cases step with
  | stay => exact ⟨r, hr, Or.inl rfl⟩
  | start x nodes d fresh pinned version initial =>
    refine ⟨r, ?_, Or.inl rfl⟩
    rw [runOf_started_other _ fun n hn => (initial.owned n hn).2, hr]
    intro he
    exact fresh (List.mem_map.2 ⟨r.execution, runOf_mem hr, (runOf_id hr).trans he⟩)
  | edit => exact ⟨r, hr, Or.inl rfl⟩
  | run other q q' d before pinned step touches =>
    by_cases he : id = other
    · subst he
      rw [before] at hr
      cases hr
      exact ⟨q', touches.after, Or.inr ⟨d, pinned, step⟩⟩
    · exact ⟨r, (touches.others id he).trans hr, Or.inl rfl⟩

/-! ### The statements are steps -/

/-- Workflows are written and the versions are left. -/
theorem CanvasStep.reword (workflows : List Workflow) : CanvasStep strict done s { s with workflows := workflows } := by
  have step : CanvasStep strict done s { s with workflows := workflows, versions := s.versions ++ [] } :=
    .edit workflows [] (by simp)
  rwa [List.append_nil] at step

theorem publishWorkflow_step (expected : Workflow) (publishedAt : Time) (versionID : UUID) :
    CanvasStep strict done s (publishWorkflow expected publishedAt versionID s).2 := by
  unfold publishWorkflow
  split
  · exact .stay
  split
  · exact .stay
  split
  · exact .stay
  split
  · exact .stay
  · rename_i hid
    refine .edit _ _ fun nodup => ?_
    rw [List.map_append, List.nodup_append]
    refine ⟨nodup, by simp, fun a ha b hb he => hid ?_⟩
    obtain ⟨v, hv, rfl⟩ := List.mem_map.1 ha
    rw [List.map_singleton, List.mem_singleton] at hb
    exact List.any_eq_true.2 ⟨v, hv, by simpa [snapshot] using he.trans hb⟩

theorem createWorkflowVersion_step (version : WorkflowVersion) :
    CanvasStep strict done s (createWorkflowVersion version s).2 := by
  unfold createWorkflowVersion
  split
  · exact .stay
  split
  · exact .stay
  split
  · exact .stay
  · rename_i hid _ _
    refine .edit s.workflows _ fun nodup => ?_
    rw [List.map_append, List.nodup_append]
    refine ⟨nodup, by simp, fun a ha b hb he => hid ?_⟩
    obtain ⟨v, hv, rfl⟩ := List.mem_map.1 ha
    rw [List.map_singleton, List.mem_singleton] at hb
    exact List.any_eq_true.2 ⟨v, hv, by simp [he.trans hb]⟩

theorem createWorkflow_step (workflow : Workflow) : CanvasStep strict done s (createWorkflow workflow s).2 := by
  unfold createWorkflow
  split
  · exact .stay
  · exact .reword _

theorem updateWorkflow_step (workflow : Workflow) : CanvasStep strict done s (updateWorkflow workflow s).2 := by
  unfold updateWorkflow
  split
  · exact .stay
  split
  · exact .stay
  · exact .reword _

theorem softDeleteWorkflow_step (orgID id : UUID) (now : Time) :
    CanvasStep strict done s (softDeleteWorkflow orgID id now s).2 := by
  unfold softDeleteWorkflow
  split
  · exact .stay
  · exact .reword _

/-- A statement that writes no execution. -/
theorem CanvasOp.quiet_step {o : CanvasOp} (quiet : o.runs = false) : CanvasStep strict done s (o.run s).2 := by
  cases o with
  | insertWorkflowExecution | claimWorkflowNode | updateWorkflowNodeExecution | updateWorkflowExecution
  | finalizeWorkflowExecution | cancelWorkflowExecution => cases quiet
  | createWorkflow workflow => exact createWorkflow_step workflow
  | updateWorkflow workflow => exact updateWorkflow_step workflow
  | softDeleteWorkflow orgID id now => exact softDeleteWorkflow_step orgID id now
  | publishWorkflow expected publishedAt versionID => exact publishWorkflow_step expected publishedAt versionID
  | createWorkflowVersion version => exact createWorkflowVersion_step version
  | _ => exact .stay

theorem touches_nodes {p : WorkflowNodeExecution → Bool} {f : WorkflowNodeExecution → WorkflowNodeExecution} {id : UUID}
    {r : Run} (hr : Windylane.runOf s id = some r) (hp : ∀ n, p n = true → n.workflowExecutionID = id)
    (hf : ∀ n, (f n).workflowExecutionID = n.workflowExecutionID) :
    Touches s { s with nodes := Table.update p f s.nodes } id { r with nodes := Table.update p f r.nodes } := by
  obtain ⟨hx, hn⟩ := runOf_eq_some.1 hr
  refine ⟨rfl, rfl, rfl, Table.map_update WorkflowNodeExecution.workflowExecutionID hf _, runOf_eq_some.2 ⟨hx, ?_⟩, fun other ne => ?_⟩
  · rw [hn, Table.filter_update fun n => by rw [hf]]
  · unfold Windylane.runOf
    congr 1
    funext x
    rw [Table.filter_update fun n => by rw [hf], Table.update_of_not fun n hn => ?_]
    cases hpn : p n with
    | false => rfl
    | true =>
      have := (List.mem_filter.1 hn).2
      rw [hp n hpn] at this
      exact (ne (by simpa using Eq.symm (of_decide_eq_true this))).elim

theorem touches_execution {p : WorkflowExecution → Bool} {f : WorkflowExecution → WorkflowExecution} {id : UUID}
    {r : Run} (hr : Windylane.runOf s id = some r) (hp : ∀ x, p x = true → x.id = id) (hf : ∀ x, (f x).id = x.id) :
    Touches s { s with executions := Table.update p f s.executions } id
      { r with execution := if p r.execution then f r.execution else r.execution } := by
  obtain ⟨hx, hn⟩ := runOf_eq_some.1 hr
  have found : ∀ other, (Table.update p f s.executions).find? (fun x => x.id = other) =
      (s.executions.find? fun x => x.id = other).map fun x => if p x then f x else x := fun other =>
    Table.find?_update fun x => by rw [hf]
  refine ⟨rfl, rfl, Table.map_update WorkflowExecution.id hf _, rfl, runOf_eq_some.2 ⟨?_, hn⟩, fun other ne => ?_⟩
  · simp [found, hx]
  · unfold Windylane.runOf
    rw [found]
    cases hq : s.executions.find? fun x => x.id = other with
    | none => rfl
    | some x =>
      have hid : x.id = other := by simpa using List.find?_some hq
      have : p x = false := by
        cases hpx : p x with
        | false => rfl
        | true => exact (ne (hid.symm.trans (hp x hpx))).elim
      simp [this]

theorem Touches.trans {s₁ s₂ : Store} {id : UUID} {r r' : Run} (h : Touches s s₁ id r) (h' : Touches s₁ s₂ id r') :
    Touches s s₂ id r' :=
  ⟨h'.workflows.trans h.workflows, h'.versions.trans h.versions, h'.ids.trans h.ids, h'.owners.trans h.owners, h'.after,
    fun other ne => (h'.others other ne).trans (h.others other ne)⟩

/-- An update of an execution that does not match its row changes nothing. -/
theorem execution_update_unmatched {id : UUID} {r : Run} (hr : Windylane.runOf s id = some r)
    {p : WorkflowExecution → Bool} {f : WorkflowExecution → WorkflowExecution} (inv : CanvasInv strict done s) (hp : ∀ x, p x = true → x.id = id) (hno : p r.execution = false) :
    Table.update p f s.executions = s.executions := by
  refine Table.update_of_not fun x hx => ?_
  cases hpx : p x with
  | false => rfl
  | true =>
    have := inv.runOf_of_mem hx
    rw [hp x hpx, hr] at this
    rw [← hpx, ← hno, Option.some.inj this]

section Statements
variable {id : UUID} {r : Run} {d : WorkflowDefinition} (hr : Windylane.runOf s id = some r)
  (pinned : definitionOf s r.execution = some d)
include hr pinned

theorem claimWorkflowNode_step {m : WorkflowNode} (member : m ∈ d.nodeList)
    (ready : Runnable d r.nodes m ∨ Skippable d r.nodes m) (orgID : UUID) (now : Time) :
    CanvasStep strict done s (claimWorkflowNode orgID id m.id now s).2 := by
  unfold claimWorkflowNode
  simp only
  split
  · refine .run id r _ d hr pinned (.claim m _ now member ready fun n _ hp => ?_)
      (touches_nodes hr (fun n hp => ?_) fun _ => rfl)
    · simp only [Bool.and_eq_true, decide_eq_true_eq] at hp
      exact ⟨hp.1.2, hp.2⟩
    · simp only [Bool.and_eq_true, decide_eq_true_eq] at hp
      exact hp.1.1.2
  · exact .stay

theorem updateWorkflowNodeExecution_skip {m : WorkflowNode} {node : WorkflowNodeExecution}
    (exec : node.workflowExecutionID = id) (member : m ∈ d.nodeList) (nodeID : m.id = node.nodeID)
    (row : ∃ n ∈ r.nodes, SameNode n node) (status : node.status = .skipped) (unlinked : Unlinked node)
    (output : Sound node.output) (skippable : Skippable d r.nodes m) :
    CanvasStep strict done s (updateWorkflowNodeExecution node .running s).2 := by
  refine .run id r _ d hr pinned
    (.skip m node _ member nodeID row status unlinked output skippable fun n _ hp => ?_)
    (touches_nodes hr (fun n hp => ?_) fun _ => rfl)
  · simp only [Bool.and_eq_true, decide_eq_true_eq] at hp
    exact ⟨hp.1.2, hp.2⟩
  · simp only [Bool.and_eq_true, decide_eq_true_eq] at hp
    exact hp.1.1.2.trans exec

theorem updateWorkflowNodeExecution_settle {m : WorkflowNode} {node : WorkflowNodeExecution}
    {expected : WorkflowNodeExecutionStatus} (exec : node.workflowExecutionID = id)
    (settles : Settles ⟨d, strict, done⟩ r m node expected) :
    CanvasStep strict done s (updateWorkflowNodeExecution node expected s).2 := by
  refine .run id r _ d hr pinned (.settle m node expected _ settles fun n _ hp => ?_)
    (touches_nodes hr (fun n hp => ?_) fun _ => rfl)
  · simp only [Bool.and_eq_true, decide_eq_true_eq] at hp
    exact ⟨hp.1.2, hp.2⟩
  · simp only [Bool.and_eq_true, decide_eq_true_eq] at hp
    exact hp.1.1.2.trans exec

theorem updateWorkflowExecution_step (inv : CanvasInv strict done s) {x : WorkflowExecution}
    {expected : List WorkflowExecutionStatus} (hid : x.id = id) (running : x.status = .running)
    (live : ∀ status ∈ expected, status.terminal = false) :
    CanvasStep strict done s (updateWorkflowExecution x expected s).2 := by
  have hp : ∀ y : WorkflowExecution,
      (decide (y.orgID = x.orgID) && decide (y.id = x.id) && decide (y.status ∈ expected)) = true → y.id = id := by
    intro y hy
    simp only [Bool.and_eq_true, decide_eq_true_eq] at hy
    exact hy.1.2.trans hid
  cases hm : (decide (r.execution.orgID = x.orgID) && decide (r.execution.id = x.id) &&
      decide (r.execution.status ∈ expected)) with
  | false =>
    unfold updateWorkflowExecution
    simp only [execution_update_unmatched hr inv hp hm]
    exact .stay
  | true =>
    have touches := touches_execution (f := revise x) hr hp fun _ => rfl
    simp only [hm, ↓reduceIte] at touches
    simp only [Bool.and_eq_true, decide_eq_true_eq] at hm
    exact .run id r _ d hr pinned
      (.touch (revise x r.execution) (live _ hm.2) ⟨rfl, rfl, rfl, rfl, rfl, rfl, rfl, rfl, rfl⟩ running) touches

omit pinned in
/-- A statement that looks for an execution by its id finds the one with the id. -/
theorem execution_matched (inv : CanvasInv strict done s) {p : WorkflowExecution → Bool}
    (hp : ∀ x, p x = true → x.id = id) (found : s.executions.any p = true) : p r.execution = true := by
  obtain ⟨x, hx, hpx⟩ := List.any_eq_true.1 found
  have := inv.runOf_of_mem hx
  rw [hp x hpx, hr] at this
  rw [Option.some.inj this]
  exact hpx

theorem finalizeWorkflowExecution_finish (inv : CanvasInv strict done s) {x : WorkflowExecution}
    {expected : List WorkflowExecutionStatus} (hid : x.id = id) (succeeded : x.status = .succeeded)
    (live : ∀ status ∈ expected, status.terminal = false)
    (resolved : ∀ n ∈ r.nodes, n.status = .succeeded ∨ n.status = .skipped) :
    CanvasStep strict done s (finalizeWorkflowExecution x expected false s).2 := by
  have hp : ∀ y : WorkflowExecution,
      (decide (y.orgID = x.orgID) && decide (y.id = x.id) && decide (y.status ∈ expected)) = true → y.id = id := by
    intro y hy
    simp only [Bool.and_eq_true, decide_eq_true_eq] at hy
    exact hy.1.2.trans hid
  unfold finalizeWorkflowExecution
  simp only
  split
  · exact .stay
  · rename_i found
    have hm := execution_matched hr inv hp (by simpa only [Bool.not_eq_true', Bool.not_eq_false] using found)
    have touches := touches_execution (f := revise x) hr hp fun _ => rfl
    simp only [hm, ↓reduceIte] at touches
    simp only [Bool.and_eq_true, decide_eq_true_eq] at hm
    exact .run id r _ d hr pinned (.finish (revise x r.execution) (live _ hm.2)
      ⟨rfl, rfl, rfl, rfl, rfl, rfl, rfl, rfl, rfl⟩ succeeded resolved) touches

omit pinned in
/-- The open nodes of an execution are those that have not ended. -/
theorem openNode_iff (inv : CanvasInv strict done s) {orgID : UUID} (horg : r.execution.orgID = orgID) :
    ∀ n ∈ r.nodes, openNode orgID id n = true ↔ n.status.terminal = false := by
  intro n hn
  obtain ⟨d', pinned', run⟩ := inv.runs id r hr
  obtain ⟨org, exec⟩ := run.owned n hn
  rw [horg] at org
  rw [runOf_id hr] at exec
  cases hs : n.status <;> simp [openNode, org, exec, hs, WorkflowNodeExecutionStatus.terminal]

theorem close_step (inv : CanvasInv strict done s) {p : WorkflowExecution → Bool}
    {f : WorkflowExecution → WorkflowExecution} {orgID : UUID} {code message : String} {now : Time}
    (hp : ∀ x, p x = true → x.id = id) (hm : p r.execution = true) (horg : r.execution.orgID = orgID)
    (live : r.execution.status.terminal = false) (same : ∀ x, SameExecution x (f x))
    (status : ∀ x, (f x).status = .failed ∨ (f x).status = .cancelled) :
    CanvasStep strict done s { s with
      executions := Table.update p f s.executions
      nodes := Table.update (openNode orgID id) (closed code message now) s.nodes } := by
  have touches := touches_execution (f := f) hr hp fun x => (same x).id
  simp only [hm, ↓reduceIte] at touches
  have touches := touches.trans (touches_nodes (p := openNode orgID id) (f := closed code message now) touches.after
    (fun n hn => by
      simp only [openNode, Bool.and_eq_true, decide_eq_true_eq] at hn
      exact hn.1.2) fun _ => rfl)
  exact .run id r _ d hr pinned (.close (f r.execution) code message now _ live (same _) (status _)
    (openNode_iff hr inv horg)) touches

theorem finalizeWorkflowExecution_fail (inv : CanvasInv strict done s) {x : WorkflowExecution}
    {expected : List WorkflowExecutionStatus} (hid : x.id = id) (failed : x.status = .failed)
    (live : ∀ status ∈ expected, status.terminal = false) :
    CanvasStep strict done s (finalizeWorkflowExecution x expected true s).2 := by
  subst hid
  have hp : ∀ y : WorkflowExecution,
      (decide (y.orgID = x.orgID) && decide (y.id = x.id) && decide (y.status ∈ expected)) = true → y.id = x.id := by
    intro y hy
    simp only [Bool.and_eq_true, decide_eq_true_eq] at hy
    exact hy.1.2
  unfold finalizeWorkflowExecution
  simp only
  split
  · exact .stay
  · rename_i found
    have hm := execution_matched hr inv hp (by simpa only [Bool.not_eq_true', Bool.not_eq_false] using found)
    have hm' := hm
    simp only [Bool.and_eq_true, decide_eq_true_eq] at hm'
    exact close_step hr pinned inv hp hm hm'.1.1 (live _ hm'.2)
      (fun _ => ⟨rfl, rfl, rfl, rfl, rfl, rfl, rfl, rfl, rfl⟩) fun _ => Or.inl failed

end Statements

theorem cancelWorkflowExecution_step (inv : CanvasInv strict done s) (orgID workflowID executionID : UUID) (now : Time) :
    CanvasStep strict done s (cancelWorkflowExecution orgID workflowID executionID now s).2 := by
  unfold cancelWorkflowExecution getWorkflowExecution
  cases hf : s.executions.find? (fun x => x.orgID = orgID && x.workflowID = workflowID && x.id = executionID) with
  | none => exact .stay
  | some x =>
    simp only
    split
    · exact .stay
    · rename_i live
      have hx := List.mem_of_find?_eq_some hf
      have hm := List.find?_some hf
      simp only [Bool.and_eq_true, decide_eq_true_eq] at hm
      obtain ⟨⟨rfl, -⟩, rfl⟩ := hm
      have hr := inv.runOf_of_mem hx
      obtain ⟨d, pinned, -⟩ := inv.runs _ _ hr
      refine close_step hr pinned inv (fun y hy => ?_) (by simp) rfl (by simpa using live)
        (fun _ => ⟨rfl, rfl, rfl, rfl, rfl, rfl, rfl, rfl, rfl⟩) fun _ => Or.inr rfl
      simp only [Bool.and_eq_true, decide_eq_true_eq] at hy
      exact hy.2

theorem insertWorkflowExecution_step {x : WorkflowExecution} {nodes : List WorkflowNodeExecution}
    {d : WorkflowDefinition} (pinned : definitionOf s x = some d) (pending : x.status = .pending)
    (keys : nodes.map (fun n => (n.nodeID, n.nodeType)) = d.nodeList.map (fun m => (m.id, m.type)))
    (untouched : ∀ n ∈ nodes, n.status = .pending ∧ Unlinked n ∧ n.output = .empty) (input : Sound x.input) :
    CanvasStep strict done s (insertWorkflowExecution x nodes s).2 := by
  unfold insertWorkflowExecution
  split
  · exact .stay
  split
  · exact .stay
  split
  · exact .stay
  split
  · exact .stay
  · rename_i hid _ hversion hnodes
    simp only [Bool.not_eq_true', Bool.not_eq_false, Bool.and_eq_true, decide_eq_true_eq, List.all_eq_true] at hnodes
    obtain ⟨⟨ids, nodeIDs⟩, owned⟩ := hnodes
    have version : ∃ v ∈ s.versions, Pins v x := by
      simp only [Bool.not_eq_true', Bool.not_eq_false, List.any_eq_true, Bool.and_eq_true, decide_eq_true_eq] at hversion
      obtain ⟨v, hv, ⟨⟨org, workflow⟩, id⟩, number⟩ := hversion
      exact ⟨v, hv, id, org, workflow, number⟩
    refine .start x nodes d (fun hm => hid ?_) pinned version ?_
    · obtain ⟨y, hy, he⟩ := List.mem_map.1 hm
      exact List.any_eq_true.2 ⟨y, hy, by simpa using he⟩
    · rw [List.map_append, List.nodup_append] at ids
      exact {
        keys
        nodeIDs
        ids := ids.2.1
        owned := fun n hn => ⟨(owned n hn).1.2, (owned n hn).2⟩
        input
        pending
        untouched }

end Steps

end Windylane
