import Windylane.Lib.History
import Windylane.Theorems.Footprints

/-! The versions of a workflow. Publishing validates the row that it reads, and the transaction publishes the row that
    it locks when both have the same time stamp. Where every write has a time stamp of its own, the stamp names the
    definition; so what is published was validated, and every publication adds the next version. -/

namespace Windylane

open Conc Script Prog

/-! ### Writes, reads and publications of a run -/

/-- The workflow that a statement writes, and the time stamp it leaves. -/
def Op.stamp : Op → Option (UUID × Time)
  | .canvas (.createWorkflow workflow) | .canvas (.updateWorkflow workflow) => some (workflow.id, workflow.updatedAt)
  | .canvas (.softDeleteWorkflow _ id now) => some (id, now)
  | .canvas (.publishWorkflow expected publishedAt _) => some (expected.id, publishedAt)
  | _ => none

/-- The same of a call that succeeded. -/
def written : machine.Exchange → Option (UUID × Time)
  | ⟨o, .ok _⟩ => o.stamp
  | ⟨_, .error _⟩ => none

/-- The workflow that a call read. -/
def readWorkflow : machine.Exchange → Option Workflow
  | ⟨.canvas (.getWorkflowByID _ _), .ok workflow⟩ => some workflow
  | _ => none

/-- The version that a call published. -/
def published : machine.Exchange → Option WorkflowVersion
  | ⟨.canvas (.publishWorkflow _ _ _), .ok version⟩ => some version
  | _ => none

/-- A call in the trace, without its caller. -/
abbrev called (e : Event machine) : machine.Exchange := ⟨e.op, e.answer⟩

/-- The time stamps written to a workflow, the latest first. -/
def stamps (id : UUID) (trace : List (Event machine)) : List Time :=
  trace.filterMap fun e => (written (called e)).bind fun stamp => if stamp.1 = id then some stamp.2 else none

/-- The versions of a workflow in the order in which they were published. -/
def publications (orgID id : UUID) (trace : List (Event machine)) : List WorkflowVersion :=
  (trace.reverse.filterMap fun e => published (called e)).filter fun v => v.orgID = orgID && v.workflowID = id

theorem stamps_cons_sublist (id : UUID) (e : Event machine) (trace : List (Event machine)) :
    (stamps id trace).Sublist (stamps id (e :: trace)) :=
  List.Sublist.filterMap _ (List.sublist_cons_self e trace)

theorem stamps_cons_written {id : UUID} {t : Time} {e : Event machine} (h : written (called e) = some (id, t))
    (trace : List (Event machine)) : stamps id (e :: trace) = t :: stamps id trace := by
  rw [stamps, List.filterMap_cons_some (b := t) (by rw [h]; simp)]
  rfl

theorem publications_cons_none (orgID id : UUID) {e : Event machine} (h : published (called e) = none)
    (trace : List (Event machine)) : publications orgID id (e :: trace) = publications orgID id trace := by
  simp [publications, List.filterMap_append, h]

theorem publications_cons_some (orgID id : UUID) {e : Event machine} {v : WorkflowVersion}
    (h : published (called e) = some v) (trace : List (Event machine)) :
    publications orgID id (e :: trace) = publications orgID id trace ++
      [v].filter fun v => v.orgID = orgID && v.workflowID = id := by
  simp [publications, List.filterMap_append, h]

/-! ### The statements -/

/-- What a call does to the workflows and the versions. -/
inductive WorkflowsMoved (s : Canvas.Store) : machine.Exchange → Canvas.Store → Prop
  | same {c : machine.Exchange} {s' : Canvas.Store} (workflows : s'.workflows = s.workflows)
      (versions : s'.versions = s.versions) (unpublished : published c = none) : WorkflowsMoved s c s'
  | edited {c : machine.Exchange} {s' : Canvas.Store} (id : UUID) (t : Time) (stamp : written c = some (id, t))
      (unpublished : published c = none) (versions : s'.versions = s.versions)
      (rows : ∀ r ∈ s'.workflows, r ∈ s.workflows ∨ r.id = id ∧ r.updatedAt = t)
      (ids : (s.workflows.map (·.id)).Nodup → (s'.workflows.map (·.id)).Nodup) : WorkflowsMoved s c s'
  | published {s' : Canvas.Store} (expected row : Workflow) (version : WorkflowVersion) (t : Time) (versionID : UUID)
      (member : row ∈ s.workflows) (id : row.id = expected.id) (unchanged : row.updatedAt = expected.updatedAt)
      (snapshot : version = Canvas.snapshot row (Canvas.nextVersion row.orgID row.id s) versionID t)
      (versions : s'.versions = s.versions ++ [version])
      (rows : ∀ r ∈ s'.workflows, r ∈ s.workflows ∨ r.id = expected.id ∧ r.updatedAt = t)
      (ids : (s.workflows.map (·.id)).Nodup → (s'.workflows.map (·.id)).Nodup) :
      WorkflowsMoved s ⟨.canvas (.publishWorkflow expected t versionID), .ok version⟩ s'

theorem updated_rows (orgID id : UUID) {t : Time} (f : Workflow → Workflow) (rows : List Workflow)
    (stamped : ∀ r, (f r).updatedAt = t) (same : ∀ r, (f r).id = r.id) :
    (∀ r ∈ Table.update (Canvas.current orgID id) f rows, r ∈ rows ∨ r.id = id ∧ r.updatedAt = t) ∧
      ((rows.map (·.id)).Nodup → ((Table.update (Canvas.current orgID id) f rows).map (·.id)).Nodup) := by
  constructor
  · intro r hr
    obtain ⟨q, hq, rfl⟩ := Table.mem_update.1 hr
    split
    · rename_i here
      simp only [Canvas.current, Bool.and_eq_true, decide_eq_true_eq] at here
      exact Or.inr ⟨(same q).trans here.1.2, stamped q⟩
    · exact Or.inl hq
  · intro ids
    rw [Table.map_update _ same]
    exact ids

theorem CanvasOp.workflows_moved (o : CanvasOp) (unused : ∀ v, o ≠ .createWorkflowVersion v) (s : Canvas.Store) :
    WorkflowsMoved s ⟨.canvas o, (o.run s).1⟩ (o.run s).2 := by
  cases o with
  | createWorkflowVersion v => exact (unused v rfl).elim
  | createWorkflow workflow =>
    simp only [CanvasOp.run, Canvas.createWorkflow]
    split
    · exact .same rfl rfl rfl
    · rename_i new
      refine .edited workflow.id workflow.updatedAt rfl rfl rfl (fun r hr => ?_) fun ids => ?_
      · rcases List.mem_append.1 hr with old | last
        · exact Or.inl old
        · cases List.mem_singleton.1 last
          exact Or.inr ⟨rfl, rfl⟩
      · rw [List.map_append]
        refine List.Nodup.append ids (List.nodup_singleton _) fun id hid same => ?_
        obtain ⟨r, hr, rfl⟩ := List.mem_map.1 hid
        refine new (List.any_eq_true.2 ⟨r, hr, ?_⟩)
        simp [List.mem_singleton.1 same]
  | updateWorkflow workflow =>
    simp only [CanvasOp.run, Canvas.updateWorkflow]
    split
    · exact .same rfl rfl rfl
    · split
      · exact .same rfl rfl rfl
      · obtain ⟨rows, ids⟩ := updated_rows workflow.orgID workflow.id (Canvas.edited workflow) s.workflows
          (fun _ => rfl) fun _ => rfl
        exact .edited workflow.id workflow.updatedAt rfl rfl rfl rows ids
  | softDeleteWorkflow orgID id now =>
    simp only [CanvasOp.run, Canvas.softDeleteWorkflow]
    split
    · exact .same rfl rfl rfl
    · obtain ⟨rows, ids⟩ := updated_rows orgID id (Canvas.removed now) s.workflows (fun _ => rfl) fun _ => rfl
      exact .edited id now rfl rfl rfl rows ids
  | publishWorkflow expected t versionID =>
    simp only [CanvasOp.run, Canvas.publishWorkflow]
    split
    · exact .same rfl rfl rfl
    · rename_i row found
      split
      · exact .same rfl rfl rfl
      · split
        · exact .same rfl rfl rfl
        · split
          · exact .same rfl rfl rfl
          · rename_i unchanged _
            have here := List.find?_some found
            simp only [Canvas.current, Bool.and_eq_true, decide_eq_true_eq] at here
            obtain ⟨rows, ids⟩ := updated_rows row.orgID row.id (Canvas.released t) s.workflows (fun _ => rfl) fun _ => rfl
            exact .published expected row _ t versionID (List.mem_of_find?_eq_some found) here.1.2
              (not_not.1 unchanged) rfl rfl (here.1.2 ▸ rows) ids
  | claimWorkflowNode orgID executionID nodeID now =>
    simp only [CanvasOp.run, Canvas.claimWorkflowNode]
    split
    all_goals exact .same rfl rfl rfl
  | insertWorkflowExecution x nodes =>
    simp only [CanvasOp.run, Canvas.insertWorkflowExecution]
    repeat' split
    all_goals exact .same rfl rfl rfl
  | cancelWorkflowExecution orgID workflowID executionID now =>
    simp only [CanvasOp.run, Canvas.cancelWorkflowExecution]
    repeat' split
    all_goals exact .same rfl rfl rfl
  | finalizeWorkflowExecution x expected cancelOpenNodes =>
    simp only [CanvasOp.run, Canvas.finalizeWorkflowExecution]
    repeat' split
    all_goals exact .same rfl rfl rfl
  | _ => exact .same rfl rfl rfl

/-- Every answer is delivered: what a statement wrote is known to its caller. -/
def Acknowledged (_ : State) : Action machine Request → Prop
  | .step _ env => ∀ e, env.fault ≠ some (.unacked e)
  | _ => True

theorem Op.workflows_moved {env : Env} (acked : ∀ e, env.fault ≠ some (.unacked e)) (o : Op)
    (unused : ∀ v, o ≠ .canvas (.createWorkflowVersion v)) (w : World) :
    WorkflowsMoved w.canvas ⟨o, (o.exec env w).1⟩ (o.exec env w).2.canvas := by
  have unwritten : ∀ e, WorkflowsMoved w.canvas ⟨o, .error e⟩ w.canvas := by
    intro e
    refine .same rfl rfl ?_
    unfold published
    split
    · rename_i he
      cases he
    · rfl
  rcases o.exec_cases env w with ⟨e, -, lost⟩ | ⟨e, fault, -⟩ | done
  · rw [lost]
    exact unwritten e
  · exact (acked e fault).elim
  · rw [done]
    cases o with
    | canvas o => exact o.workflows_moved (fun v he => unused v (congrArg Op.canvas he)) w.canvas
    | sys o | task o | worker o | broker o | hook o => exact .same rfl rfl rfl

/-! ### The programs -/

/-- What a failed call answers. -/
def publishFailed : Except Err Outcome → Bool
  | .error _ | .ok (.published (.error _)) => true
  | _ => false

/-- What is published was read, with a definition that is valid. -/
structure PublishesValid (h : Host) (request : Request) (past : List machine.Exchange) (o : Op) : Prop where
  unused : ∀ v, o ≠ .canvas (.createWorkflowVersion v)
  valid : ∀ expected t versionID, o = .canvas (.publishWorkflow expected t versionID) →
    ∃ c ∈ past, readWorkflow c = some expected ∧
      (validateWorkflowDefinition h.uuidParse expected.definition).valid = true
  /-- Publishing writes in its transaction only. -/
  only : ∀ orgID id, request = .edit (.publishWorkflow orgID id) → o.stamp.isSome = true →
    ∃ expected t versionID, o = .canvas (.publishWorkflow expected t versionID)

/-- A call that failed published nothing. -/
def PublishesOnce (request : Request) (past : List machine.Exchange) (r : Except Err Outcome) : Prop :=
  ∀ orgID id, request = .edit (.publishWorkflow orgID id) → publishFailed r = true → ∀ c ∈ past, published c = none

/-- Calls that publish nothing. -/
def Op.unpublishing (o : Op) : Prop :=
  (∀ v, o ≠ .canvas (.createWorkflowVersion v)) ∧
    ∀ expected t versionID, o ≠ .canvas (.publishWorkflow expected t versionID)

theorem Op.unpublishing.valid {h : Host} {request : Request} {past : List machine.Exchange} {o : Op}
    (other : o.unpublishing) (notPublish : ∀ orgID id, request ≠ .edit (.publishWorkflow orgID id)) :
    PublishesValid h request past o where
  unused := other.1
  valid := fun expected t versionID he => (other.2 expected t versionID he).elim
  only := fun orgID id he => (notPublish orgID id he).elim

/-- Everything but writing workflows. -/
abbrev Footprint.offWorkflows : Footprint where
  runs := True
  workflows := False
  endpoints := True
  results := True
  sends := True
  deliveries := True
  create := fun _ => True
  deliver := fun _ => True

/-- Only editing writes workflows. -/
theorem body_offWorkflows (h : Host) {request : Request} (other : ∀ edit, request ≠ .edit edit) :
    (body h request).Calls (Op.within Footprint.offWorkflows) :=
  body_calls h {
    runs := fun _ => trivial
    workflows := fun edit he => other edit he
    endpoints := fun _ _ => trivial
    results := fun _ _ _ _ => trivial
    sends := fun _ => trivial
    deliveries := fun _ => trivial
    requested := fun _ _ _ _ _ _ => trivial
    dispatched := fun _ _ _ => trivial
    events := fun _ _ => trivial
    posts := fun _ _ _ _ _ => trivial }

theorem unpublishing_of_within {o : Op} (within : o.within Footprint.offWorkflows) : o.unpublishing := by
  constructor
  · rintro v rfl
    exact within
  · rintro expected t versionID rfl
    exact within

section Programs

-- the conditions on texts are not decided here
seal trimSpace

theorem editBody_unpublishing (h : Host) {edit : Edit} (other : ∀ orgID id, edit ≠ .publishWorkflow orgID id) :
    (editBody h edit).Calls Op.unpublishing := by
  cases edit with
  | createWorkflow input =>
    refine Calls.bind ?_ fun _ => trivial
    unfold createWorkflow
    split
    · trivial
    · simp [perform, Op.unpublishing]
  | updateWorkflow orgID id input =>
    refine Calls.bind ?_ fun _ => trivial
    refine calls_ite.2 ⟨fun _ => trivial, fun _ => ⟨by simp [Op.unpublishing], fun answer => ?_⟩⟩
    cases answer with
    | error e => trivial
    | ok workflow =>
      refine calls_ite.2 ⟨fun _ => trivial, fun _ => ?_⟩
      split
      · trivial
      · simp [perform, Op.unpublishing]
  | deleteWorkflow orgID id =>
    refine Calls.bind ?_ fun _ => trivial
    simp [deleteWorkflow, perform, Op.unpublishing]
  | publishWorkflow orgID id => exact (other orgID id rfl).elim

theorem publishWorkflow_along (h : Host) (orgID id : UUID) :
    (publishWorkflow h orgID id).Along (fun _ _ => True) (PublishesValid h (.edit (.publishWorkflow orgID id)))
      (fun past r => (∃ result, r = .ok (.ok result)) ∨ ∀ c ∈ past, published c = none) [] := by
  have plain : ∀ {past o}, o.unpublishing → o.stamp = none →
      PublishesValid h (.edit (.publishWorkflow orgID id)) past o := by
    intro past o other unstamped
    refine ⟨other.1, fun expected t versionID he => (other.2 expected t versionID he).elim, fun _ _ _ some => ?_⟩
    rw [unstamped] at some
    cases some
  have read : ∀ r : machine.Answer (.canvas (.getWorkflowByID orgID id)), ∀ c ∈ [(⟨_, r⟩ : machine.Exchange)],
      published c = none := by
    intro r c hc
    cases List.mem_singleton.1 hc
    rfl
  refine Along.perform (plain (by simp [Op.unpublishing]) rfl) (fun e _ => Or.inr (read _)) fun workflow _ => ?_
  dsimp only
  split
  · exact Or.inr (read _)
  · rename_i valid
    have valid : (validateWorkflowDefinition h.uuidParse workflow.definition).valid = true := by simpa using valid
    refine Along.perform (plain (by simp [Op.unpublishing]) rfl) (fun e _ => Or.inr ?_) fun publishedAt _ => ?_
    · simp [published]
    · refine Along.perform (plain (by simp [Op.unpublishing]) rfl) (fun e _ => Or.inr ?_) fun versionID _ => ?_
      · simp [published]
      · refine Along.perform ⟨fun v he => (by cases he), ?_, ?_⟩ (fun e _ => Or.inr ?_) fun version _ => Or.inl ⟨_, rfl⟩
        · intro expected t id he
          cases he
          exact ⟨⟨.canvas (.getWorkflowByID orgID _), .ok workflow⟩, by simp, rfl, valid⟩
        · exact fun _ _ _ _ => ⟨_, _, _, rfl⟩
        · simp [published]

/-- What every request publishes, from what it read. -/
theorem body_publishes (h : Host) (request : Request) :
    (body h request).Along (fun _ _ => True) (PublishesValid h request) (PublishesOnce request) [] := by
  have other : (body h request).Calls Op.unpublishing → (∀ orgID id, request ≠ .edit (.publishWorkflow orgID id)) →
      (body h request).Along (fun _ _ => True) (PublishesValid h request) (PublishesOnce request) [] :=
    fun calls notPublish => calls.along (fun _ _ ho => ho.valid notPublish) fun _ _ orgID id he =>
      (notPublish orgID id he).elim
  by_cases edits : ∃ edit, request = .edit edit
  · obtain ⟨edit, rfl⟩ := edits
    by_cases publishes : ∃ orgID id, edit = .publishWorkflow orgID id
    · obtain ⟨orgID, id, rfl⟩ := publishes
      refine Along.bind (publishWorkflow_along h orgID id) ?_ ?_
      · rintro past result ended - - - failed
        rcases ended with ⟨result, hr⟩ | none
        · cases hr
          cases failed
        · exact none
      · rintro past e ended - - - -
        rcases ended with ⟨result, hr⟩ | none
        · cases hr
        · exact none
    · have notPublish : ∀ orgID id, edit ≠ .publishWorkflow orgID id := fun orgID id he => publishes ⟨orgID, id, he⟩
      refine other (editBody_unpublishing h notPublish) fun orgID id he => ?_
      cases he
      exact notPublish orgID id rfl
  · exact other ((body_offWorkflows h fun edit he => edits ⟨edit, he⟩).mono fun _ => unpublishing_of_within)
      fun orgID id he => edits ⟨_, he⟩

end Programs

/-! ### Runs -/

/-- Version numbers from one on. -/
def numbered (count : Nat) : List Int := (List.range count).map fun i : Nat => (i : Int) + 1

/-- The versions of a workflow. -/
def versionsIn (orgID id : UUID) (s : Canvas.Store) : List WorkflowVersion :=
  s.versions.filter fun v => v.orgID = orgID && v.workflowID = id

/-- The versions of a workflow are those that were published, in that order and numbered from one on, and their
    definitions are valid. -/
structure VersionsNumbered (h : Host) (orgID id : UUID) (s : Canvas.Store) (trace : List (Event machine)) : Prop where
  stored : versionsIn orgID id s = publications orgID id trace
  dense : (publications orgID id trace).map (·.version) = numbered (publications orgID id trace).length
  valid : ∀ v ∈ publications orgID id trace, (validateWorkflowDefinition h.uuidParse v.definition).valid = true

/-- A time stamp that was read names the definition that was read with it. -/
structure VersionsInv (h : Host) (orgID id : UUID) (c : Config machine) : Prop extends
    VersionsNumbered h orgID id c.world.canvas c.trace where
  ids : (c.world.canvas.workflows.map (·.id)).Nodup
  stamped : ∀ r ∈ c.world.canvas.workflows, r.id = id → r.updatedAt ∈ stamps id c.trace
  reads : ∀ e ∈ c.trace, ∀ read, readWorkflow (called e) = some read → read.id = id →
    read.updatedAt ∈ stamps id c.trace ∧
      ∀ r ∈ c.world.canvas.workflows, r.id = id → r.updatedAt = read.updatedAt → r.definition = read.definition

theorem numbered_succ (count : Nat) : numbered (count + 1) = numbered count ++ [(count : Int) + 1] := by
  rw [numbered, List.range_succ, List.map_append]
  rfl

/-- The number after the versions from one on. -/
theorem nextVersion_numbered {orgID id : UUID} {s : Canvas.Store} {count : Nat}
    (dense : (versionsIn orgID id s).map (·.version) = numbered count) :
    Canvas.nextVersion orgID id s = (count : Int) + 1 := by
  unfold Canvas.nextVersion
  rw [show s.versions.filter (fun v => v.orgID = orgID && v.workflowID = id) = versionsIn orgID id s from rfl, dense]
  cases count with
  | zero => rfl
  | succ count =>
    have largest : (numbered (count + 1)).max? = some ((count : Int) + 1) := by
      refine List.max?_eq_some_iff.2 ⟨?_, fun i hi => ?_⟩
      · rw [numbered_succ]
        exact List.mem_append_right _ (List.mem_singleton_self _)
      · obtain ⟨j, hj, rfl⟩ := List.mem_map.1 hi
        have := List.mem_range.1 hj
        omega
    rw [largest]
    push_cast
    rfl

theorem WorkflowsMoved.rows {s s' : Canvas.Store} {c : machine.Exchange} (moved : WorkflowsMoved s c s') :
    (∀ r ∈ s'.workflows, r ∈ s.workflows ∨ written c = some (r.id, r.updatedAt)) ∧
      ((s.workflows.map (·.id)).Nodup → (s'.workflows.map (·.id)).Nodup) := by
  have stamped : ∀ {id t}, written c = some (id, t) →
      (∀ r ∈ s'.workflows, r ∈ s.workflows ∨ r.id = id ∧ r.updatedAt = t) →
      ∀ r ∈ s'.workflows, r ∈ s.workflows ∨ written c = some (r.id, r.updatedAt) := by
    intro id t stamp rows r hr
    rcases rows r hr with old | ⟨rfl, rfl⟩
    · exact Or.inl old
    · exact Or.inr stamp
  cases moved with
  | same workflows versions unpublished =>
    rw [workflows]
    exact ⟨fun r hr => Or.inl hr, fun ids => ids⟩
  | edited id t stamp unpublished versions rows ids => exact ⟨stamped stamp rows, ids⟩
  | published expected row version t versionID member id unchanged snapshot versions rows ids =>
    exact ⟨stamped rfl rows, ids⟩

/-- A workflow that is read is a stored row, and reading writes nothing. -/
theorem readWorkflow_row {env : Env} {o : Op} {w : World} {read : Workflow}
    (h : readWorkflow ⟨o, (o.exec env w).1⟩ = some read) :
    read ∈ w.canvas.workflows ∧ written ⟨o, (o.exec env w).1⟩ = none := by
  unfold readWorkflow at h
  split at h
  · rename_i orgID id workflow he
    obtain ⟨rfl, answer⟩ := Sigma.mk.inj he
    have ok := eq_of_heq answer
    cases h
    constructor
    · have found : Canvas.getWorkflowByID orgID id w.canvas = .ok read := by
        rw [Op.exec_ok ok] at ok
        exact ok
      unfold Canvas.getWorkflowByID at found
      split at found
      · rename_i row hrow
        cases found
        exact List.mem_of_find?_eq_some hrow
      · cases found
    · rw [ok]
      rfl
  · cases h

section Step
variable {h : Host} {orgID id : UUID} {c : Config machine} {pid : Nat} {env : Env} {o : Op} {request : Request}

/-- A publication adds the next version. -/
theorem VersionsNumbered.step {s s' : Canvas.Store} {trace : List (Event machine)} {e : Event machine}
    (inv : VersionsNumbered h orgID id s trace) (moved : WorkflowsMoved s (called e) s')
    (valid : ∀ expected t versionID, e.op = .canvas (.publishWorkflow expected t versionID) → expected.id = id →
      ∀ row ∈ s.workflows, row.id = id → row.updatedAt = expected.updatedAt →
        (validateWorkflowDefinition h.uuidParse row.definition).valid = true) :
    VersionsNumbered h orgID id s' (e :: trace) := by
  have same : s'.versions = s.versions → published (called e) = none → VersionsNumbered h orgID id s' (e :: trace) := by
    intro versions unpublished
    have same := publications_cons_none orgID id unpublished trace
    refine ⟨?_, ?_, ?_⟩
    · rw [same, versionsIn, versions]
      exact inv.stored
    · rw [same]
      exact inv.dense
    · rw [same]
      exact inv.valid
  generalize hcall : called e = call at moved
  cases moved with
  | same workflows versions unpublished => exact same versions (hcall ▸ unpublished)
  | edited id t stamp unpublished versions rows ids => exact same versions (hcall ▸ unpublished)
  | published expected row version t versionID member target unchanged snapshot versions rows ids =>
    have op : e.op = .canvas (.publishWorkflow expected t versionID) := congrArg Sigma.fst hcall
    have added := publications_cons_some orgID id (v := version) (by rw [hcall]; rfl) trace
    have stored : versionsIn orgID id s' = publications orgID id (e :: trace) := by
      rw [added, versionsIn, versions, List.filter_append, ← inv.stored, versionsIn]
    by_cases here : version.orgID = orgID ∧ version.workflowID = id
    · rw [List.filter_singleton, Bool.cond_eq_ite, if_pos (by simpa using here)] at added
      have next := nextVersion_numbered (inv.stored ▸ inv.dense)
      rw [inv.stored] at next
      refine ⟨stored, ?_, ?_⟩
      · rw [added, List.map_append, inv.dense, List.length_append, List.length_singleton, numbered_succ, ← next,
          ← here.1, ← here.2, snapshot]
        rfl
      · rw [added]
        intro v hv
        rcases List.mem_append.1 hv with old | new
        · exact inv.valid v old
        · cases List.mem_singleton.1 new
          rw [snapshot] at here ⊢
          exact valid expected t versionID op (target.symm.trans here.2) row member here.2 unchanged
    · rw [List.filter_singleton, Bool.cond_eq_ite, if_neg (by simpa using here), List.append_nil] at added
      exact ⟨stored, added ▸ inv.dense, added ▸ inv.valid⟩

theorem VersionsInv.step (inv : VersionsInv h orgID id c) (acked : ∀ e, env.fault ≠ some (.unacked e))
    (publishes : PublishesValid h request (history pid c.trace) o)
    (stamped : (stamps id (c.after pid env o).trace).Nodup) : VersionsInv h orgID id (c.after pid env o) := by
  have moved := o.workflows_moved acked publishes.unused c.world
  obtain ⟨rows, ids⟩ := moved.rows
  have grown := stamps_cons_sublist id ⟨pid, o, (o.exec env c.world).1⟩ c.trace
  refine ⟨?_, ids inv.ids, fun r hr same => ?_, fun e he read hread same => ?_⟩
  · refine inv.toVersionsNumbered.step moved fun expected t versionID he target row hrow same stamp => ?_
    obtain ⟨call, hcall, hread, valid⟩ := publishes.valid expected t versionID he
    obtain ⟨e, he, -, rfl⟩ := exists_of_mem_history hcall
    rw [(inv.reads e he expected hread target).2 row hrow same stamp]
    exact valid
  · rcases rows r hr with old | new
    · exact grown.mem (inv.stamped r old same)
    · rw [same] at new
      rw [Config.after_trace, stamps_cons_written (by exact new)]
      exact List.mem_cons_self
  · rcases List.mem_cons.1 he with rfl | before
    · obtain ⟨stored, unwritten⟩ := readWorkflow_row hread
      refine ⟨grown.mem (inv.stamped read stored same), fun r hr sameRow _ => ?_⟩
      rcases rows r hr with old | new
      · rw [Table.eq_of_key inv.ids old stored (sameRow.trans same.symm)]
      · rw [unwritten] at new
        cases new
    · obtain ⟨known, definition⟩ := inv.reads e before read hread same
      refine ⟨grown.mem known, fun r hr sameRow stamp => ?_⟩
      rcases rows r hr with old | new
      · exact definition r old sameRow stamp
      · -- a write has a time stamp that nobody read before
        rw [sameRow, stamp] at new
        rw [Config.after_trace, stamps_cons_written (by exact new)] at stamped
        exact ((List.nodup_cons.1 stamped).1 known).elim

end Step

section Runs
variable {h : Host} {w : World}

theorem step_publishes {s : State} (reach : Reachable h Acknowledged w s) {pid : Nat} {request : Request} {o : Op}
    {k : machine.Answer o → Script Outcome} (hp : s.procs[pid]? = some ⟨request, .call o k, true⟩) :
    PublishesValid h request (history pid s.config.trace) o :=
  (reach.along (fun _ _ _ _ _ _ _ => trivial) (body_publishes h) hp).1

theorem versions_invariant {orgID id : UUID} (ids : (w.canvas.workflows.map (·.id)).Nodup)
    (unwritten : ∀ r ∈ w.canvas.workflows, r.id ≠ id) (unversioned : ∀ v ∈ w.canvas.versions, v.workflowID ≠ id)
    {s : State} (reach : Reachable h Acknowledged w s) (stamped : (stamps id s.config.trace).Nodup) :
    VersionsInv h orgID id s.config := by
  revert stamped
  refine reach.invariant (fun s : State => (stamps id s.config.trace).Nodup → VersionsInv h orgID id s.config) ?_ ?_
  · refine fun _ => ⟨⟨?_, rfl, fun v hv => (by cases hv)⟩, ids, fun r hr same => (unwritten r hr same).elim,
      fun e he => (by cases he)⟩
    refine List.filter_eq_nil_iff.2 fun v hv here => unversioned v hv ?_
    simp only [Bool.and_eq_true, decide_eq_true_eq] at here
    exact here.2
  · intro s t a prior inv acked taken stamped
    rcases System.next_cases taken with ⟨_, -, rfl⟩ | ⟨pid, env, request, o, k, rfl, hp, rfl⟩ | ⟨_, _, -, -, rfl⟩
    · exact inv stamped
    · exact (inv (stamped.sublist (stamps_cons_sublist id _ _))).step acked (step_publishes prior hp) stamped
    · exact inv stamped

/-- Versions are only added. -/
theorem versions_kept {s t : State} (reach : Reachable h Acknowledged w s)
    (later : System.Reach (body h) Acknowledged s t) :
    s.config.world.canvas.versions <+: t.config.world.canvas.versions := by
  suffices kept : Reachable h Acknowledged w t ∧ s.config.world.canvas.versions <+: t.config.world.canvas.versions from
    kept.2
  refine later.invariant (fun t : State => Reachable h Acknowledged w t ∧
    s.config.world.canvas.versions <+: t.config.world.canvas.versions) ⟨reach, List.prefix_refl _⟩ ?_
  rintro t u a - ⟨prior, grown⟩ acked taken
  refine ⟨.next a prior acked taken, grown.trans ?_⟩
  rcases System.next_cases taken with ⟨_, -, rfl⟩ | ⟨pid, env, request, o, k, rfl, hp, rfl⟩ | ⟨_, _, -, -, rfl⟩
  · exact List.prefix_refl _
  · have moved := o.workflows_moved acked (step_publishes prior hp).unused t.config.world
    generalize (⟨o, (o.exec env t.config.world).1⟩ : machine.Exchange) = call at moved
    rw [Config.after_world]
    cases moved with
    | same workflows versions unpublished => exact versions ▸ List.prefix_refl _
    | edited id t stamp unpublished versions rows ids => exact versions ▸ List.prefix_refl _
    | published expected row version t versionID member id unchanged snapshot versions rows ids =>
      exact versions ▸ List.prefix_append _ _
  · exact List.prefix_refl _

/-- No step of a call that fails to publish changes anything. -/
theorem failed_unpublished {s t u : State} (reach : Reachable h Acknowledged w s) {pid : Nat} {env : Env}
    (acked : ∀ e, env.fault ≠ some (.unacked e)) (taken : s.next (body h) (.step pid env) = some t)
    (later : System.Reach (body h) Acknowledged t u) {p : Process machine Request Outcome}
    (hp : u.procs[pid]? = some p) {orgID id : UUID} (request : p.request = .edit (.publishWorkflow orgID id))
    {r : Except Err Outcome} (ended : p.prog.result = some r) (failed : publishFailed r = true) :
    t.config.world.canvas.workflows = s.config.world.canvas.workflows ∧
      t.config.world.canvas.versions = s.config.world.canvas.versions := by
  have reached : Reachable h Acknowledged w t := .next (.step pid env) reach acked taken
  rcases System.next_cases taken with ⟨_, ha, -⟩ | ⟨_, _, request', o, k, ha, hs, rfl⟩ | ⟨_, _, ha, -, -⟩
  · cases ha
  · cases ha
    have publishes := step_publishes reach hs
    have unpublished : published ⟨o, (o.exec env s.config.world).1⟩ = none := by
      refine (reached.trans later).along (fun _ _ _ _ _ _ _ => trivial) (body_publishes h) hp |>.ended ended
        orgID id request failed _ ((later.history_prefix pid).mem ?_)
      rw [Config.after_trace, history_self (by rfl)]
      exact List.mem_append_right _ (List.mem_singleton_self _)
    have same : request' = .edit (.publishWorkflow orgID id) := by
      have kept := (System.Reach.next (.step pid env) .refl acked taken).trans later |>.same_request hs hp
      exact kept.symm.trans request
    have moved := o.workflows_moved acked publishes.unused s.config.world
    rw [Config.after_world]
    generalize hc : (⟨o, (o.exec env s.config.world).1⟩ : machine.Exchange) = call at moved unpublished
    cases moved with
    | same workflows versions _ => exact ⟨workflows, versions⟩
    | edited i t stamp _ versions rows ids =>
      subst hc
      cases answer : (o.exec env s.config.world).1 with
      | error e =>
        rw [answer] at stamp
        cases stamp
      | ok a =>
        rw [answer] at stamp unpublished
        have stamp : o.stamp = some (i, t) := stamp
        obtain ⟨expected, _, versionID, rfl⟩ := publishes.only orgID id same (by rw [stamp]; rfl)
        cases unpublished
    | published expected row version t versionID => cases unpublished
  · cases ha

/-- The versions of a workflow are numbered from one on in the order in which they were published, are valid and
    stay as they are, and a call that fails to publish changes nothing. -/
theorem published_versions {orgID id : UUID} (ids : (w.canvas.workflows.map (·.id)).Nodup)
    (unwritten : ∀ r ∈ w.canvas.workflows, r.id ≠ id) (unversioned : ∀ v ∈ w.canvas.versions, v.workflowID ≠ id)
    {s : State} (reach : Reachable h Acknowledged w s) (stamped : (stamps id s.config.trace).Nodup) :
    VersionsNumbered h orgID id s.config.world.canvas s.config.trace ∧
    (∀ t, System.Reach (body h) Acknowledged s t →
      s.config.world.canvas.versions <+: t.config.world.canvas.versions) ∧
    ∀ pid env t u p r, Acknowledged s (.step pid env) → s.next (body h) (.step pid env) = some t →
      System.Reach (body h) Acknowledged t u → u.procs[pid]? = some p →
      p.request = .edit (.publishWorkflow orgID id) → p.prog.result = some r → publishFailed r = true →
      t.config.world.canvas.workflows = s.config.world.canvas.workflows ∧
        t.config.world.canvas.versions = s.config.world.canvas.versions := by
  refine ⟨(versions_invariant ids unwritten unversioned reach stamped).toVersionsNumbered,
    fun t later => versions_kept reach later, ?_⟩
  intro pid env t u p r acked taken later hp request ended failed
  exact failed_unpublished reach acked taken later hp request ended failed

end Runs

/-! ### Two publications -/

def draftedDefinition : WorkflowDefinition where
  nodes := some [⟨"start", .trigger, "start", some []⟩, ⟨"work", .task, "work", some [("queue", .str "jobs")]⟩]
  edges := some [⟨"e1", "start", "work", .empty⟩]

/-- Every definition that is sent is the one above. -/
def draftingHost : Host := { sampleHost with decodeDefinition := fun _ => some draftedDefinition }

def draftedWorkflow : CreateWorkflowInput := ⟨⟨1⟩, "work", "work", none, .json (.obj [])⟩

/-- A workflow is created, published, edited and published again. -/
def draftingRun : List (Action machine Request) :=
  .spawn (.edit (.createWorkflow draftedWorkflow)) :: steps 0 1 [0, 21, 0] ++
    .spawn (.edit (.publishWorkflow ⟨1⟩ ⟨21⟩)) :: steps 1 2 [0, 0, 31, 0] ++
    .spawn (.edit (.updateWorkflow ⟨1⟩ ⟨21⟩ ⟨some "task", none, none, .empty⟩)) :: steps 2 3 [0, 0, 0] ++
    .spawn (.edit (.publishWorkflow ⟨1⟩ ⟨21⟩)) :: steps 3 4 [0, 0, 32, 0]

theorem draftingRun_calm {a : Action machine Request} (h : a ∈ draftingRun) : Calm a := by
  simp only [draftingRun, List.cons_append, List.mem_cons, List.mem_append] at h
  rcases h with rfl | (((h | rfl | h) | rfl | h) | rfl | h)
  all_goals first
    | trivial
    | exact steps_calm h

theorem acknowledged_of_calm {s : State} {a : Action machine Request} (calm : Calm a) : Acknowledged s a := by
  cases a with
  | spawn request => trivial
  | step pid env =>
    intro e fault
    rw [show env.fault = none from calm] at fault
    cases fault
  | crash pid => trivial

theorem draftingRun_versions : ∃ s : State,
    (System.init (sampleWorld [] [])).run (body draftingHost) draftingRun = some s ∧
    (versionsIn ⟨1⟩ ⟨21⟩ s.config.world.canvas).map (fun v => (v.version, v.name)) = [(1, "work"), (2, "task")] ∧
    VersionsNumbered draftingHost ⟨1⟩ ⟨21⟩ s.config.world.canvas s.config.trace := by
  obtain ⟨s, run, versions, stamped⟩ : ∃ s : State,
      (System.init (sampleWorld [] [])).run (body draftingHost) draftingRun = some s ∧
      (versionsIn ⟨1⟩ ⟨21⟩ s.config.world.canvas).map (fun v => (v.version, v.name)) = [(1, "work"), (2, "task")] ∧
      stamps ⟨21⟩ s.config.trace = [4, 3, 2, 1] := by
    refine ⟨_, rfl, ?_, ?_⟩
    · rfl
    · rfl
  have reach : Reachable draftingHost Acknowledged (sampleWorld [] []) s :=
    System.reach_of_run (fun a ha s => acknowledged_of_calm (draftingRun_calm ha)) run
  have distinct : (stamps ⟨21⟩ s.config.trace).Nodup := stamped ▸ by decide
  have unused : ((sampleWorld [] []).canvas.workflows.map (·.id)).Nodup := List.nodup_nil
  have kept : VersionsNumbered draftingHost ⟨1⟩ ⟨21⟩ s.config.world.canvas s.config.trace ∧ _ :=
    published_versions unused (fun r hr => by cases hr) (fun v hv => by cases hv) reach distinct
  exact ⟨s, run, versions, kept.1⟩

end Windylane
