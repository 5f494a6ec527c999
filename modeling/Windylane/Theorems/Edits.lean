import Windylane.Theorems.Versions

/-! Editing a workflow. An update reads the whole row, changes the fields that it sets and writes every field back. The
    fields that it does not set keep their stored values as long as nobody has set them since it read the row. -/

namespace Windylane

open Conc Script Prog

/-! ### Fields -/

inductive WorkflowField where
  | name | slug | description | definition
deriving DecidableEq

inductive FieldValue where
  | text (text : String)
  | optional (text : Option String)
  | graph (definition : WorkflowDefinition)
deriving DecidableEq

def WorkflowField.of : WorkflowField → Workflow → FieldValue
  | .name, w => .text w.name
  | .slug, w => .text w.slug
  | .description, w => .optional w.description
  | .definition, w => .graph w.definition

def UpdateWorkflowInput.sets (input : UpdateWorkflowInput) : WorkflowField → Bool
  | .name => input.name.isSome
  | .slug => input.slug.isSome
  | .description => input.description.isSome
  | .definition => !input.definition.isEmpty

def Request.setsField (f : WorkflowField) : Request → Bool
  | .edit (.updateWorkflow _ _ input) => input.sets f
  | _ => false

/-- The stored value of a field. -/
def fieldAt (f : WorkflowField) (orgID id : UUID) (rows : List Workflow) : Option FieldValue :=
  (rows.find? fun r => r.orgID = orgID && r.id = id).map f.of

/-- Of two rows of one workflow, the fields are the same, but for one that is set. -/
structure AlikeBut (g : WorkflowField) (set : Bool) (x y : Workflow) : Prop where
  orgID : x.orgID = y.orgID
  id : x.id = y.id
  fields : ∀ f, (f = g → set = false) → f.of x = f.of y

theorem AlikeBut.same (g : WorkflowField) (set : Bool) (x : Workflow) : AlikeBut g set x x := ⟨rfl, rfl, fun _ _ => rfl⟩

section Stages
variable (input : UpdateWorkflowInput)

/-- The changes of `editWorkflow` one by one. -/
def renamed (w : Workflow) : Option Workflow :=
  match input.name with
  | none => some w
  | some name => (normalizeWorkflowName name).map fun name => { w with name := name }

def reslugged (w : Workflow) : Option Workflow :=
  match input.slug with
  | none => some w
  | some slug => if validateWorkflowSlug (trimSpace slug) then some { w with slug := trimSpace slug } else none

def redescribed (w : Workflow) : Option Workflow :=
  match input.description with
  | none => some w
  | some description => (normalizeWorkflowDescription description).map fun description => { w with description := description }

def redefined (h : Host) (w : Workflow) : Option Workflow :=
  if input.definition.isEmpty then some w
  else (parseWorkflowDefinition h input.definition).map fun definition => { w with definition := definition }

end Stages

section Stages
variable {input : UpdateWorkflowInput} {x y : Workflow}

theorem editWorkflow_stages (h : Host) (input : UpdateWorkflowInput) (w : Workflow) :
    editWorkflow h input w = (renamed input w).bind fun w => (reslugged input w).bind fun w =>
      (redescribed input w).bind (redefined input h) := by
  unfold editWorkflow renamed reslugged
  obtain ⟨name, slug, description, definition⟩ := input
  cases slug with
  | none => cases name <;> cases description <;> rfl
  | some slug =>
    by_cases valid : validateWorkflowSlug (trimSpace slug) = true
    · simp only [valid]
      cases name <;> cases description <;> rfl
    · simp only [valid]
      cases name <;> rfl

theorem renamed_alike (changed : renamed input y = some x) : AlikeBut .name input.name.isSome x y := by
  unfold renamed at changed
  split at changed
  · cases changed
    exact .same ..
  · rename_i set
    obtain ⟨name, -, rfl⟩ := Option.map_eq_some_iff.1 changed
    refine ⟨rfl, rfl, fun f unset => ?_⟩
    cases f <;> first | rfl | simp [set] at unset

theorem reslugged_alike (changed : reslugged input y = some x) : AlikeBut .slug input.slug.isSome x y := by
  unfold reslugged at changed
  split at changed
  · cases changed
    exact .same ..
  · rename_i set
    split at changed
    · cases changed
      refine ⟨rfl, rfl, fun f unset => ?_⟩
      cases f <;> first | rfl | simp [set] at unset
    · cases changed

theorem redescribed_alike (changed : redescribed input y = some x) :
    AlikeBut .description input.description.isSome x y := by
  unfold redescribed at changed
  split at changed
  · cases changed
    exact .same ..
  · rename_i set
    obtain ⟨description, -, rfl⟩ := Option.map_eq_some_iff.1 changed
    refine ⟨rfl, rfl, fun f unset => ?_⟩
    cases f <;> first | rfl | simp [set] at unset

theorem redefined_alike {h : Host} (changed : redefined input h y = some x) :
    AlikeBut .definition (!input.definition.isEmpty) x y := by
  unfold redefined at changed
  split at changed
  · cases changed
    exact .same ..
  · rename_i set
    obtain ⟨definition, -, rfl⟩ := Option.map_eq_some_iff.1 changed
    refine ⟨rfl, rfl, fun f unset => ?_⟩
    cases f <;> first | rfl | simp [set] at unset

/-- An update changes nothing but the fields that it sets. -/
theorem editWorkflow_frame {h : Host} (edited : editWorkflow h input y = some x) :
    x.orgID = y.orgID ∧ x.id = y.id ∧ ∀ f, input.sets f = false → f.of x = f.of y := by
  rw [editWorkflow_stages] at edited
  obtain ⟨named, hname, edited⟩ := Option.bind_eq_some_iff.1 edited
  obtain ⟨slugged, hslug, edited⟩ := Option.bind_eq_some_iff.1 edited
  obtain ⟨described, hdescription, hdefinition⟩ := Option.bind_eq_some_iff.1 edited
  have name := renamed_alike hname
  have slug := reslugged_alike hslug
  have description := redescribed_alike hdescription
  have definition := redefined_alike hdefinition
  refine ⟨?_, ?_, fun f unset => ?_⟩
  · rw [definition.orgID, description.orgID, slug.orgID, name.orgID]
  · rw [definition.id, description.id, slug.id, name.id]
  · rw [definition.fields f, description.fields f, slug.fields f, name.fields f]
    all_goals
      rintro rfl
      exact unset

end Stages

/-! ### The table -/

/-- What a call does to the workflows. -/
inductive WorkflowRows (rows : List Workflow) : Op → List Workflow → Prop
  | same {o : Op} : WorkflowRows rows o rows
  | created {o : Op} (x : Workflow) (fresh : ∀ r ∈ rows, r.id ≠ x.id) : WorkflowRows rows o (rows ++ [x])
  | edited (x : Workflow) : WorkflowRows rows (.canvas (.updateWorkflow x))
      (Table.update (Canvas.current x.orgID x.id) (Canvas.edited x) rows)
  | marked {o : Op} (p : Workflow → Bool) (mark : Workflow → Workflow)
      (key : ∀ r, (mark r).orgID = r.orgID ∧ (mark r).id = r.id) (created : ∀ r, (mark r).createdAt = r.createdAt)
      (fields : ∀ (f : WorkflowField) (r : Workflow), f.of (mark r) = f.of r) :
      WorkflowRows rows o (Table.update p mark rows)

theorem Op.workflow_rows (env : Env) (o : Op) (w : World) :
    WorkflowRows w.canvas.workflows o (o.exec env w).2.canvas.workflows := by
  rcases o.exec_world env w with lost | done
  · rw [lost]
    exact .same
  · rw [done]
    cases o with
    | sys o | task o | worker o | broker o | hook o => exact .same
    | canvas o =>
      cases o with
      | createWorkflow x =>
        simp only [Op.run, CanvasOp.run, Canvas.createWorkflow]
        split
        · exact .same
        · rename_i unused
          exact .created _ fun r hr same => unused (List.any_eq_true.2 ⟨r, hr, by simp [same]⟩)
      | updateWorkflow x =>
        simp only [Op.run, CanvasOp.run, Canvas.updateWorkflow]
        split
        · exact .same
        · split
          · exact .same
          · exact .edited x
      | softDeleteWorkflow orgID id now =>
        simp only [Op.run, CanvasOp.run, Canvas.softDeleteWorkflow]
        split
        · exact .same
        · exact .marked _ (Canvas.removed now) (fun _ => ⟨rfl, rfl⟩) (fun _ => rfl) fun f _ => by cases f <;> rfl
      | publishWorkflow expected t versionID =>
        simp only [Op.run, CanvasOp.run, Canvas.publishWorkflow]
        repeat' split
        all_goals try exact .same
        exact .marked _ (Canvas.released t) (fun _ => ⟨rfl, rfl⟩) (fun _ => rfl) fun f _ => by cases f <;> rfl
      | createWorkflowVersion v =>
        simp only [Op.run, CanvasOp.run, Canvas.createWorkflowVersion]
        repeat' split
        all_goals exact .same
      | claimWorkflowNode orgID executionID nodeID now =>
        simp only [Op.run, CanvasOp.run, Canvas.claimWorkflowNode]
        split
        all_goals exact .same
      | insertWorkflowExecution x nodes =>
        simp only [Op.run, CanvasOp.run, Canvas.insertWorkflowExecution]
        repeat' split
        all_goals exact .same
      | cancelWorkflowExecution orgID workflowID executionID now =>
        simp only [Op.run, CanvasOp.run, Canvas.cancelWorkflowExecution]
        repeat' split
        all_goals exact .same
      | finalizeWorkflowExecution x expected cancelOpenNodes =>
        simp only [Op.run, CanvasOp.run, Canvas.finalizeWorkflowExecution]
        repeat' split
        all_goals exact .same
      | _ => exact .same

section Table
variable {rows rows' : List Workflow} {o : Op} {orgID id : UUID} {f : WorkflowField}

/-- The id stays the key of the workflows. -/
theorem WorkflowRows.ids (moved : WorkflowRows rows o rows') (ids : (rows.map (·.id)).Nodup) :
    (rows'.map (·.id)).Nodup := by
  cases moved with
  | same => exact ids
  | created x fresh =>
    rw [List.map_append]
    refine List.Nodup.append ids (List.nodup_singleton _) fun id hid same => ?_
    obtain ⟨r, hr, rfl⟩ := List.mem_map.1 hid
    exact fresh r hr (List.mem_singleton.1 same)
  | edited x =>
    rw [Table.map_update (f := Canvas.edited x) _ fun _ => rfl]
    exact ids
  | marked p mark key _ fields =>
    rw [Table.map_update (f := mark) _ fun r => (key r).2]
    exact ids

/-- A field that a row of the table has. -/
theorem fieldAt_of_mem (ids : (rows.map (·.id)).Nodup) {r : Workflow} (hr : r ∈ rows) (org : r.orgID = orgID)
    (target : r.id = id) : fieldAt f orgID id rows = some (f.of r) := by
  cases found : rows.find? fun r => r.orgID = orgID && r.id = id with
  | none =>
    have other := List.find?_eq_none.1 found r hr
    simp [org, target] at other
  | some q =>
    have here := List.find?_some found
    simp only [Bool.and_eq_true, decide_eq_true_eq] at here
    obtain rfl := Table.eq_of_key ids (List.mem_of_find?_eq_some found) hr (here.2.trans target.symm)
    rw [fieldAt, found]
    rfl

/-- A field of every row that is updated. -/
theorem fieldAt_update {p : Workflow → Bool} {g : Workflow → Workflow}
    (key : ∀ r, (g r).orgID = r.orgID ∧ (g r).id = r.id) (f : WorkflowField) :
    fieldAt f orgID id (Table.update p g rows) =
      (rows.find? fun r => r.orgID = orgID && r.id = id).map fun r => f.of (if p r then g r else r) := by
  rw [fieldAt, Table.find?_update fun r => by rw [(key r).1, (key r).2], Option.map_map]
  rfl

/-- A field keeps its value, unless an update writes it. -/
theorem WorkflowRows.field (moved : WorkflowRows rows o rows') {v : FieldValue}
    (stored : fieldAt f orgID id rows = some v) :
    fieldAt f orgID id rows' = some v ∨ ∃ x, o = .canvas (.updateWorkflow x) ∧ x.orgID = orgID ∧ x.id = id ∧
      fieldAt f orgID id rows' = some (f.of x) := by
  obtain ⟨r, found, rfl⟩ := Option.map_eq_some_iff.1 stored
  have here := List.find?_some found
  simp only [Bool.and_eq_true, decide_eq_true_eq] at here
  cases moved with
  | same => exact Or.inl stored
  | created x fresh =>
    refine Or.inl ?_
    rw [fieldAt, List.find?_append, found]
    rfl
  | edited x =>
    rw [fieldAt_update (g := Canvas.edited x) (fun _ => ⟨rfl, rfl⟩), found, Option.map_some]
    split
    · rename_i current
      simp only [Canvas.current, Bool.and_eq_true, decide_eq_true_eq] at current
      refine Or.inr ⟨x, rfl, current.1.1.symm.trans here.1, current.1.2.symm.trans here.2, ?_⟩
      cases f <;> rfl
    · exact Or.inl rfl
  | marked p mark key _ fields =>
    refine Or.inl ?_
    rw [fieldAt_update key, found, Option.map_some]
    split
    · rw [fields]
    · rfl

end Table

/-! ### The programs -/

section Programs

-- the conditions on texts are not decided here
seal trimSpace

/-- What is written is the row that was read, but for the fields that the request sets. -/
def WritesRowBack (request : Request) (past : List machine.Exchange) (o : Op) : Prop :=
  ∀ x, o = .canvas (.updateWorkflow x) → ∃ y, past.filterMap readWorkflow = [y] ∧
    ∀ f, request.setsField f = false → f.of x = f.of y

theorem updateWorkflow_along (h : Host) (orgID id : UUID) (input : UpdateWorkflowInput) :
    (updateWorkflow h orgID id input).Along (fun _ _ => True) (WritesRowBack (.edit (.updateWorkflow orgID id input)))
      (fun _ _ => True) [] := by
  unfold updateWorkflow
  split
  · trivial
  · refine Along.perform (fun x he => by cases he) (fun _ _ => trivial) fun y _ => ?_
    split
    · trivial
    · split
      · trivial
      · rename_i x edited
        refine Along.perform (fun x he => by cases he) (fun _ _ => trivial) fun now _ => ?_
        refine Along.perform ?_ (fun _ _ => trivial) fun _ _ => trivial
        intro x' he
        cases he
        obtain ⟨-, -, fields⟩ := editWorkflow_frame edited
        refine ⟨y, rfl, fun f unset => ?_⟩
        rw [← fields f unset]
        cases f <;> rfl

/-- Every request writes back what it read. -/
theorem body_writesRowBack (h : Host) (request : Request) :
    (body h request).Along (fun _ _ => True) (WritesRowBack request) (fun _ _ => True) [] := by
  have other : (body h request).Calls (fun o : Op => ∀ x, o ≠ .canvas (.updateWorkflow x)) →
      (body h request).Along (fun _ _ => True) (WritesRowBack request) (fun _ _ => True) [] :=
    fun calls => calls.along (fun _ _ plain x he => (plain x he).elim) fun _ _ => trivial
  by_cases edits : ∃ edit, request = .edit edit
  · obtain ⟨edit, rfl⟩ := edits
    cases edit with
    | updateWorkflow orgID id input =>
      exact Along.bind (updateWorkflow_along h orgID id input) (fun _ _ _ => trivial) fun _ _ _ => trivial
    | createWorkflow input =>
      refine other (Calls.bind ?_ fun _ => trivial)
      unfold createWorkflow
      split
      · trivial
      · simp [perform]
    | deleteWorkflow orgID id =>
      refine other (Calls.bind ?_ fun _ => trivial)
      simp [deleteWorkflow, perform]
    | publishWorkflow orgID id =>
      refine other (Calls.bind ?_ fun _ => trivial)
      refine ⟨by simp, fun answer => ?_⟩
      cases answer with
      | error e => trivial
      | ok workflow =>
        refine calls_ite.2 ⟨fun _ => trivial, fun _ => ?_⟩
        simp [perform]
  · refine other ((body_offWorkflows h fun edit he => edits ⟨edit, he⟩).mono ?_)
    rintro o within x rfl
    exact within

end Programs

/-! ### Runs -/

section Runs
variable (f : WorkflowField) (orgID id : UUID)

/-- The value of the field that a request that sets it wrote to the workflow. -/
def setting (requests : List Request) : Event machine → Option FieldValue
  | ⟨pid, .canvas (.updateWorkflow x), _⟩ =>
    if x.orgID = orgID ∧ x.id = id ∧ requests[pid]?.any (·.setsField f) = true then some (f.of x) else none
  | _ => none

def succeeded : Event machine → Bool
  | ⟨_, _, .ok _⟩ => true
  | ⟨_, _, .error _⟩ => false

/-- The value written by the last successful update that set the field. -/
def lastSet (s : State) : Option FieldValue :=
  (s.config.trace.filterMap fun e => if succeeded e then setting f orgID id s.requests e else none).head?

/-- The workflow as process `pid` read it, unless the field was set since. -/
def knownWorkflow (s : State) (pid : Nat) : Option Workflow :=
  known (fun c => (readWorkflow c).filter fun y => y.orgID = orgID && y.id = id)
    (fun e => (setting f orgID id s.requests e).isSome) pid s.config.trace

end Runs

/-- An update writes the workflow only while no field that it does not set was set since it read the workflow, and the
    answer arrives. -/
structure Unraced (orgID id : UUID) (s : State) (a : Action machine Request) : Prop where
  acked : ∀ pid env x, a = .step pid env → s.Calling pid (.canvas (.updateWorkflow x)) → x.orgID = orgID → x.id = id →
    ∀ e, env.fault ≠ some (.unacked e)
  current : ∀ pid env x f, a = .step pid env → s.Calling pid (.canvas (.updateWorkflow x)) → x.orgID = orgID → x.id = id →
    s.requests[pid]?.any (·.setsField f) = false → (knownWorkflow f orgID id s pid).isSome = true

/-- Every field has the value that was set last, and who read it since knows it. -/
structure EditsInv (orgID id : UUID) (row : Workflow) (s : State) : Prop where
  ids : (s.config.world.canvas.workflows.map (·.id)).Nodup
  stored : ∀ f, fieldAt f orgID id s.config.world.canvas.workflows =
    some ((lastSet f orgID id s).getD (f.of row))
  known : ∀ f pid y, knownWorkflow f orgID id s pid = some y →
    fieldAt f orgID id s.config.world.canvas.workflows = some (f.of y)

section Runs
variable {f : WorkflowField} {orgID id : UUID}

theorem setting_eq_some {requests : List Request} {e : Event machine} {v : FieldValue}
    (set : setting f orgID id requests e = some v) : ∃ x, e.op = .canvas (.updateWorkflow x) ∧ x.orgID = orgID ∧
      x.id = id ∧ requests[e.pid]?.any (·.setsField f) = true ∧ v = f.of x := by
  unfold setting at set
  split at set
  · rename_i pid x answer
    split at set
    · rename_i here
      exact ⟨x, rfl, here.1, here.2.1, here.2.2, (Option.some.inj set).symm⟩
    · cases set
  · cases set

theorem setting_eq_none {requests : List Request} {e : Event machine} (unset : setting f orgID id requests e = none)
    {x : Workflow} (write : e.op = .canvas (.updateWorkflow x)) (org : x.orgID = orgID) (target : x.id = id) :
    requests[e.pid]?.any (·.setsField f) = false := by
  obtain ⟨pid, o, answer⟩ := e
  cases write
  simp only [setting, ite_eq_right_iff, reduceCtorEq, imp_false] at unset
  by_contra set
  exact unset ⟨org, target, by simpa using set⟩

theorem succeeded_ok {pid : Nat} {o : Op} {answer : machine.Answer o} {r : o.Resp} (ok : answer = .ok r) :
    succeeded ⟨pid, o, answer⟩ = true := by
  subst ok
  rfl

theorem not_succeeded_error {pid : Nat} {o : Op} {answer : machine.Answer o} {e : Err} (failed : answer = .error e) :
    ¬ succeeded ⟨pid, o, answer⟩ = true := by
  subst failed
  exact Bool.false_ne_true

/-- Who made a call is known. -/
theorem setting_append {requests : List Request} (request : Request) {e : Event machine} (lt : e.pid < requests.length) :
    setting f orgID id (requests ++ [request]) e = setting f orgID id requests e := by
  unfold setting
  split
  · rw [List.getElem?_append_left lt]
  · rfl

/-- A write that succeeded is stored. -/
theorem updated_field {env : Env} {x : Workflow} {w : World} {answer : Unit}
    (ids : (w.canvas.workflows.map (·.id)).Nodup)
    (ok : ((Op.canvas (.updateWorkflow x)).exec env w).1 = .ok answer) :
    fieldAt f x.orgID x.id ((Op.canvas (.updateWorkflow x)).exec env w).2.canvas.workflows = some (f.of x) := by
  have moved := Op.workflow_rows env (.canvas (.updateWorkflow x)) w
  have done := Op.exec_ok ok
  rw [done] at ok moved ⊢
  have kept := moved.ids ids
  simp only [Op.run, CanvasOp.run, Canvas.updateWorkflow] at ok kept ⊢
  split at ok
  · cases ok
  · rename_i found
    split at ok
    · cases ok
    · rename_i unique
      simp only [found, unique] at kept ⊢
      simp only [Bool.not_eq_true, Bool.not_eq_false', List.any_eq_true] at found
      obtain ⟨r, hr, here⟩ := found
      have written : Canvas.edited x r ∈ Table.update (Canvas.current x.orgID x.id) (Canvas.edited x)
          w.canvas.workflows := Table.mem_update.2 ⟨r, hr, by rw [if_pos here]⟩
      simp only [Canvas.current, Bool.and_eq_true, decide_eq_true_eq] at here
      have set := fieldAt_of_mem (f := f) kept written here.1.1 here.1.2
      refine set.trans ?_
      cases f <;> rfl

/-- A write that failed, and says so, is not stored. -/
theorem failed_update {env : Env} {x : Workflow} {w : World} {e : Err} (acked : ∀ e, env.fault ≠ some (.unacked e))
    (failed : ((Op.canvas (.updateWorkflow x)).exec env w).1 = .error e) :
    ((Op.canvas (.updateWorkflow x)).exec env w).2.canvas = w.canvas := by
  rcases Op.exec_cases env (.canvas (.updateWorkflow x)) w with ⟨_, -, lost⟩ | ⟨e, fault, -⟩ | done
  · rw [lost]
  · exact (acked e fault).elim
  · rw [done] at failed ⊢
    simp only [Op.run, CanvasOp.run, Canvas.updateWorkflow] at failed ⊢
    split
    · rfl
    · split
      · rfl
      · rename_i found unique
        simp only [found, unique] at failed
        cases failed

variable {h : Host} {w : World} {row : Workflow}

/-- A step of a request that does not set a field leaves the field. -/
theorem unset_field {s : State} (reach : Reachable h (Unraced orgID id) w s) (inv : EditsInv orgID id row s)
    {actor : Nat} {env : Env} {request : Request} {o : Op} {k : machine.Answer o → Prog machine.toSignature Outcome}
    (ha : s.procs[actor]? = some ⟨request, .call o k, true⟩) (allowed : Unraced orgID id s (.step actor env))
    (unset : s.requests[actor]?.any (·.setsField f) = false) :
    fieldAt f orgID id (o.exec env s.config.world).2.canvas.workflows =
      fieldAt f orgID id s.config.world.canvas.workflows := by
  rcases (o.workflow_rows env s.config.world).field (inv.stored f) with same | ⟨x, rfl, org, target, set⟩
  · rw [same, inv.stored f]
  · obtain ⟨y, hy⟩ := Option.isSome_iff_exists.1 (allowed.current actor env x f rfl ⟨request, k, ha⟩ org target unset)
    obtain ⟨c, hc, read⟩ := known_read hy
    have along := reach.along (fun _ _ _ _ _ _ _ => trivial) (body_writesRowBack h) ha
    obtain ⟨y', reads, kept⟩ := along.1 x rfl
    have only : y ∈ [y'] := reads ▸ List.mem_filterMap.2 ⟨c, hc, (Option.filter_eq_some_iff.1 read).1⟩
    obtain rfl := List.mem_singleton.1 only
    rw [System.requests_at ha] at unset
    rw [set, kept f unset, inv.known f actor y hy]

/-- The field after a step, from who took the step. -/
theorem step_field {s : State} (reach : Reachable h (Unraced orgID id) w s) (inv : EditsInv orgID id row s)
    {actor : Nat} {env : Env} {request : Request} {o : Op} {k : machine.Answer o → Prog machine.toSignature Outcome}
    (ha : s.procs[actor]? = some ⟨request, .call o k, true⟩) (allowed : Unraced orgID id s (.step actor env))
    (unset : setting f orgID id s.requests ⟨actor, o, (o.exec env s.config.world).1⟩ = none) :
    fieldAt f orgID id (o.exec env s.config.world).2.canvas.workflows =
      fieldAt f orgID id s.config.world.canvas.workflows := by
  by_cases writes : ∃ x, o = .canvas (.updateWorkflow x) ∧ x.orgID = orgID ∧ x.id = id
  · obtain ⟨x, rfl, org, target⟩ := writes
    exact unset_field reach inv ha allowed (setting_eq_none unset rfl org target)
  · rcases (o.workflow_rows env s.config.world).field (inv.stored f) with same | ⟨x, write, org, target, -⟩
    · rw [same, inv.stored f]
    · exact (writes ⟨x, write, org, target⟩).elim

/-- The invariant is about the workflows and the calls that were made. -/
theorem EditsInv.unchanged {s t : State} (inv : EditsInv orgID id row s) (config : t.config = s.config)
    (same : ∀ f, ∀ e ∈ s.config.trace, setting f orgID id t.requests e = setting f orgID id s.requests e) :
    EditsInv orgID id row t := by
  refine ⟨config ▸ inv.ids, fun f => ?_, fun f pid y hy => ?_⟩
  · have last : lastSet f orgID id t = lastSet f orgID id s := by
      rw [lastSet, lastSet, config]
      exact congrArg List.head? (List.filterMap_congr fun e he => by rw [same f e he])
    rw [last, config, inv.stored f]
  · rw [config]
    refine inv.known f pid y ?_
    rw [← hy, knownWorkflow, knownWorkflow, config]
    exact known_congr fun e he => by rw [same f e he]

theorem edits_step {s t : State} {a : Action machine Request} (reach : Reachable h (Unraced orgID id) w s)
    (inv : EditsInv orgID id row s) (allowed : Unraced orgID id s a) (taken : s.next (body h) a = some t) :
    EditsInv orgID id row t := by
  have requests := System.next_requests taken
  rcases System.next_cases taken with ⟨request, rfl, rfl⟩ | ⟨actor, env, request, o, k, rfl, ha, rfl⟩ |
      ⟨actor, q, rfl, ha, rfl⟩
  · refine inv.unchanged rfl fun f e he => ?_
    have length : s.requests.length = s.procs.length := List.length_map _
    rcases requests with ⟨request', -, started⟩ | same
    · rw [started, setting_append request' (length ▸ reach.pid_lt e he)]
    · rw [same]
  · obtain ⟨_, spawn, -⟩ | same := requests
    · cases spawn
    · refine ⟨(o.workflow_rows env s.config.world).ids inv.ids, fun f => ?_, fun f pid y hy => ?_⟩
      · rw [lastSet, same, Config.after_trace]
        cases set : setting f orgID id s.requests ⟨actor, o, (o.exec env s.config.world).1⟩ with
        | none =>
          rw [List.filterMap_cons_none (by rw [ite_eq_right_iff]; exact fun _ => set)]
          exact (step_field reach inv ha allowed set).trans (inv.stored f)
        | some v =>
          obtain ⟨x, write, org, target, -, rfl⟩ := setting_eq_some set
          obtain rfl : o = .canvas (.updateWorkflow x) := write
          cases answer : ((Op.canvas (.updateWorkflow x)).exec env s.config.world).1 with
          | ok done =>
            rw [List.filterMap_cons_some (b := f.of x) (by rw [if_pos (succeeded_ok rfl)]; exact set)]
            exact org ▸ target ▸ updated_field inv.ids answer
          | error e =>
            rw [List.filterMap_cons_none (by rw [if_neg (not_succeeded_error rfl)])]
            have kept := failed_update (allowed.acked actor env x rfl ⟨request, k, ha⟩ org target) answer
            exact (congrArg (fun c : Canvas.Store => fieldAt f orgID id c.workflows) kept).trans (inv.stored f)
      · rw [knownWorkflow, same, Config.after_trace] at hy
        obtain ⟨unset, now⟩ := known_cons hy
        refine (step_field reach inv ha allowed (by simpa using unset)).trans ?_
        rcases now with ⟨-, read⟩ | before
        · obtain ⟨read, here⟩ := Option.filter_eq_some_iff.1 read
          simp only [Bool.and_eq_true, decide_eq_true_eq] at here
          exact fieldAt_of_mem inv.ids (readWorkflow_row read).1 here.1 here.2
        · exact inv.known f pid y before
  · rcases requests with ⟨_, spawn, -⟩ | same
    · cases spawn
    · exact inv.unchanged rfl fun f e _ => by rw [same]

theorem edits_invariant (ids : (w.canvas.workflows.map (·.id)).Nodup) (hrow : row ∈ w.canvas.workflows)
    (org : row.orgID = orgID) (target : row.id = id) {s : State} (reach : Reachable h (Unraced orgID id) w s) :
    EditsInv orgID id row s := by
  refine reach.invariant (fun s : State => EditsInv orgID id row s) ⟨ids, fun f => ?_, fun f pid y hy => ?_⟩ ?_
  · exact fieldAt_of_mem ids hrow org target
  · cases hy
  · intro s t a reach inv allowed taken
    exact edits_step reach inv allowed taken

/-- A request leaves the fields that it does not set, so every field has the value written by the last successful update
    that set it. -/
theorem unset_fields_kept (ids : (w.canvas.workflows.map (·.id)).Nodup) (hrow : row ∈ w.canvas.workflows)
    (org : row.orgID = orgID) (target : row.id = id) {s : State} (reach : Reachable h (Unraced orgID id) w s) :
    (∀ pid env t p f, Unraced orgID id s (.step pid env) → s.next (body h) (.step pid env) = some t →
      s.procs[pid]? = some p → p.request.setsField f = false →
      fieldAt f orgID id t.config.world.canvas.workflows = fieldAt f orgID id s.config.world.canvas.workflows) ∧
    ∀ f, fieldAt f orgID id s.config.world.canvas.workflows = some ((lastSet f orgID id s).getD (f.of row)) := by
  have inv := edits_invariant ids hrow org target reach
  refine ⟨fun pid env t p f allowed taken hp unset => ?_, inv.stored⟩
  rcases System.next_cases taken with ⟨_, spawn, -⟩ | ⟨actor, env', request, o, k, step, ha, rfl⟩ | ⟨_, _, crash, -⟩
  · cases spawn
  · cases step
    refine unset_field reach inv ha allowed ?_
    rw [System.requests_at hp]
    exact unset
  · cases crash

end Runs

/-! ### Two updates -/

def notedWorkflow : Workflow := ⟨⟨21⟩, ⟨1⟩, "work", "work", some "notes", .draft, draftedDefinition, 0, 0, none⟩

def renameRequest : Request := .edit (.updateWorkflow ⟨1⟩ ⟨21⟩ ⟨some "task", none, none, .empty⟩)
def clearRequest : Request := .edit (.updateWorkflow ⟨1⟩ ⟨21⟩ ⟨none, none, some none, .empty⟩)

/-- The workflow is renamed from a row that was read before its description was removed: the description is back. -/
theorem description_restored : ∃ s t : State,
    (System.init (sampleWorld [notedWorkflow] [])).run (body sampleHost)
      (.spawn renameRequest :: .spawn clearRequest :: steps 0 1 [0, 0] ++ steps 1 2 [0, 0, 0]) = some s ∧
    s.next (body sampleHost) (.step 0 (sampleEnv 1 ⟨0⟩)) = some t ∧
    t.procs.all (fun p => p.prog.result.any fun r => r.isOk) = true ∧
    renameRequest.setsField .description = false ∧
    fieldAt .description ⟨1⟩ ⟨21⟩ s.config.world.canvas.workflows = some (.optional none) ∧
    lastSet .description ⟨1⟩ ⟨21⟩ t = some (.optional none) ∧
    fieldAt .description ⟨1⟩ ⟨21⟩ t.config.world.canvas.workflows = some (.optional (some "notes")) :=
  ⟨_, _, rfl, rfl, rfl, rfl, rfl, rfl, rfl⟩

/-- The condition on a step of a run. -/
def unracedStep (s : State) : Action machine Request → Bool
  | .step pid env =>
    match s.procs[pid]? with
    | some ⟨request, .call (.canvas (.updateWorkflow _)) _, true⟩ =>
      env.fault.isNone && [WorkflowField.name, .slug, .description, .definition].all fun f =>
        request.setsField f || (knownWorkflow f ⟨1⟩ ⟨21⟩ s pid).isSome
    | _ => true
  | _ => true

theorem unraced_of_unracedStep {s : State} {a : Action machine Request} (ok : unracedStep s a = true) :
    Unraced ⟨1⟩ ⟨21⟩ s a := by
  constructor
  · rintro pid env x rfl ⟨request, k, hp⟩ - - e fault
    simp only [unracedStep, hp, fault, Option.isNone_some, Bool.false_and, Bool.false_eq_true] at ok
  · rintro pid env x f rfl ⟨request, k, hp⟩ - - unset
    simp only [unracedStep, hp, Bool.and_eq_true, List.all_eq_true] at ok
    rw [System.requests_at hp] at unset
    have unset : request.setsField f = false := unset
    have current := ok.2 f (by cases f <;> simp)
    rw [unset, Bool.false_or] at current
    exact current

/-- The second update reads the workflow after the first one has written it. -/
theorem updates_kept : ∃ s : State,
    (System.init (sampleWorld [notedWorkflow] [])).runChecked (body sampleHost) unracedStep
      (.spawn renameRequest :: .spawn clearRequest :: steps 1 1 [0, 0, 0] ++ steps 0 2 [0, 0, 0]) = some s ∧
    s.config.world.canvas.workflows.map (fun r => (r.name, r.description)) = [("task", none)] ∧
    ∀ f, fieldAt f ⟨1⟩ ⟨21⟩ s.config.world.canvas.workflows =
      some ((lastSet f ⟨1⟩ ⟨21⟩ s).getD (f.of notedWorkflow)) := by
  obtain ⟨s, run, fields⟩ : ∃ s : State,
      (System.init (sampleWorld [notedWorkflow] [])).runChecked (body sampleHost) unracedStep
        (.spawn renameRequest :: .spawn clearRequest :: steps 1 1 [0, 0, 0] ++ steps 0 2 [0, 0, 0]) = some s ∧
      s.config.world.canvas.workflows.map (fun r => (r.name, r.description)) = [("task", none)] := ⟨_, rfl, rfl⟩
  have reach : Reachable sampleHost (Unraced ⟨1⟩ ⟨21⟩) (sampleWorld [notedWorkflow] []) s :=
    System.reach_of_checked (fun _ _ _ ok => unraced_of_unracedStep ok) run
  have ids : ((sampleWorld [notedWorkflow] []).canvas.workflows.map (·.id)).Nodup := List.nodup_singleton _
  exact ⟨s, run, fields, (unset_fields_kept ids (List.mem_singleton_self _) rfl rfl reach).2⟩

end Windylane
