import Windylane.Lib.Accounts
import Windylane.Theorems.Footprints

/-! What the workflow service reports. A call that changed an execution or a node makes its process owe the event of the
    change to the recorder, and a process that closed an execution owes the events of the nodes that were cancelled with
    it, which it lists. Whatever else happens in between, a process that ended owes nothing. -/

namespace Windylane

open Conc Script Prog

-- the conditions on texts are not decided here
seal trimSpace

/-! ### Accounts -/

/-- What is owed to the recorder: an event, or the events of the nodes that were cancelled with an execution. -/
inductive Debt where
  | event (eventType : MetricEventType) (id : UUID)
  | listing (orgID executionID : UUID)
deriving DecidableEq

/-- The event of an execution that ended. -/
def WorkflowExecutionStatus.event : WorkflowExecutionStatus → Option MetricEventType
  | .succeeded => some .workflowExecutionSucceeded
  | .failed => some .workflowExecutionFailed
  | .cancelled => some .workflowExecutionCancelled
  | .pending | .running => none

/-- The event of a node that ended. -/
def WorkflowNodeExecutionStatus.event : WorkflowNodeExecutionStatus → Option MetricEventType
  | .succeeded => some .nodeExecutionSucceeded
  | .failed => some .nodeExecutionFailed
  | .skipped => some .nodeExecutionSkipped
  | .cancelled => some .nodeExecutionCancelled
  | .pending | .queued | .running => none

/-- The changes that a call made. -/
def debtsOf : machine.Exchange → List Debt
  | ⟨.canvas (.insertWorkflowExecution x _), .ok true⟩ => [.event .workflowExecutionCreated x.id]
  | ⟨.canvas (.updateWorkflowExecution x expected), .ok true⟩ =>
    if expected = [.pending] then [.event .workflowExecutionStarted x.id] else []
  | ⟨.canvas (.finalizeWorkflowExecution x _ closes), .ok true⟩ =>
    x.status.event.toList.map (.event · x.id) ++ if closes then [.listing x.orgID x.id] else []
  | ⟨.canvas (.cancelWorkflowExecution orgID _ executionID _), .ok x⟩ =>
    [.event .workflowExecutionCancelled x.id, .listing orgID executionID]
  | ⟨.canvas (.claimWorkflowNode _ _ _ _), .ok (some n)⟩ => [.event .nodeExecutionStarted n.id]
  | ⟨.canvas (.updateWorkflowNodeExecution n _), .ok true⟩ => n.status.event.toList.map (.event · n.id)
  | _ => []

/-- The execution that a call closed. -/
def closing : machine.Exchange → Option (UUID × UUID)
  | ⟨.canvas (.finalizeWorkflowExecution x _ true), .ok true⟩ => some (x.orgID, x.id)
  | ⟨.canvas (.cancelWorkflowExecution orgID _ executionID _), .ok _⟩ => some (orgID, executionID)
  | _ => none

/-- The execution that was closed and reported by the last two calls; the last one comes first. -/
def unlisted : List machine.Exchange → Option (UUID × UUID)
  | ⟨.sys (.record _), _⟩ :: c :: _ => closing c
  | _ => none

/-- The nodes of an execution, as they were listed after it was closed. -/
structure Listing where
  orgID : UUID
  executionID : UUID
  nodes : List WorkflowNodeExecution

/-- The events of the nodes that are cancelled. -/
def cancelledDebts (nodes : List WorkflowNodeExecution) : List Debt :=
  (nodes.filter (·.status = .cancelled)).map fun n => .event .nodeExecutionCancelled n.id

/-- The nodes that a call listed of the execution that was closed by the calls before it. -/
def listingOf (before : List machine.Exchange) : machine.Exchange → Option Listing
  | ⟨.canvas (.getWorkflowNodeExecutions orgID executionID), .ok nodes⟩ =>
    if unlisted before = some (orgID, executionID) then some ⟨orgID, executionID, nodes⟩ else none
  | _ => none

/-- The event of an execution or a node that a call records. -/
def canvasEvent : Op → Option Debt
  | .sys (.record input) => if input.source = .taskCanvas then some (.event input.eventType input.resourceID) else none
  | _ => none

def reports : Accounts machine Debt where
  incurs := fun before c => debtsOf c ++ (listingOf before c).elim [] fun l => cancelledDebts l.nodes
  pays := fun before c => (canvasEvent c.1).toList ++ (listingOf before c).elim [] fun l => [.listing l.orgID l.executionID]

/-! ### Owing -/

/-- A process owes these debts, and it has not just closed an execution. -/
structure Owing (debts : List Debt) (past : List machine.Exchange) : Prop where
  owes : reports.Owes debts past
  listed : unlisted past.reverse = none
  last : ∀ c ∈ past.reverse.head?, closing c = none

section Owing
variable {debts debts' : List Debt} {past : List machine.Exchange} {c : machine.Exchange}

theorem owing_nil : Owing [] [] := ⟨Accounts.owes_nil, rfl, fun _ hc => by cases hc⟩

theorem listingOf_none {before : List machine.Exchange} (listed : unlisted before = none) (c : machine.Exchange) :
    listingOf before c = none := by
  unfold listingOf
  split
  · rw [listed, if_neg (by simp)]
  · rfl

/-- A call that closes no execution. -/
theorem Owing.call (owing : Owing debts past) (stays : closing c = none)
    (next : (debtsOf c ++ debts).Perm (debts' ++ (canvasEvent c.1).toList)) : Owing debts' (past ++ [c]) := by
  refine ⟨owing.owes.call ?_, ?_, ?_⟩
  · simpa [reports, listingOf_none owing.listed c] using next
  · rw [List.reverse_append, List.reverse_singleton, List.singleton_append]
    unfold unlisted
    split
    · rename_i split
      have := owing.last
      rw [(List.cons.inj split).2] at this
      exact this _ rfl
    · rfl
  · rw [List.reverse_append]
    intro c' hc'
    cases hc'
    exact stays

/-- A call that changes no execution or node and records no event of one. -/
structure Op.Unreported (o : Op) : Prop where
  event : canvasEvent o = none
  dues : ∀ r, debtsOf ⟨o, r⟩ = []
  stays : ∀ r, closing ⟨o, r⟩ = none

theorem Owing.unreported (owing : Owing debts past) {o : Op} (quiet : o.Unreported) (r : machine.Answer o) :
    Owing debts (past ++ [⟨o, r⟩]) :=
  owing.call (quiet.stays r) (by simp [quiet.event, quiet.dues])

/-- A debt is paid. -/
theorem Owing.recorded {d : Debt} {event : NewMetricEventInput} (owing : Owing (d :: debts) past)
    (pays : canvasEvent (.sys (.record event)) = some d) (r : machine.Answer (.sys (.record event))) :
    Owing debts (past ++ [⟨.sys (.record event), r⟩]) :=
  owing.call rfl (by simpa [debtsOf, pays] using (List.perm_append_singleton d debts).symm)

end Owing

/-! ### Programs -/

/-- What is known of the answers when nothing fails. -/
def Replied : (o : Op) → machine.Answer o → Prop
  | .sys _, r => ∃ a, r = .ok a
  | .canvas (.getWorkflowNodeExecutions _ _), r => ∃ nodes, r = .ok nodes
  | _, _ => True

/-- The program goes on from its past, and owes these debts in the end. -/
abbrev Leaves {α : Type} (debts : List Debt) (past : List machine.Exchange) (p : Script α) : Prop :=
  p.Along Replied (fun _ _ => True) (fun after _ => Owing debts after) past

/-- The program pays for all that it does. -/
def Balances {α : Type} (p : Script α) : Prop := ∀ past, Owing [] past → Leaves [] past p

theorem closed_balances : Closed Op.Unreported Balances where
  ret := fun _ _ owing => owing
  fail := fun _ _ owing => owing
  call := fun _ _ quiet rest _ owing => ⟨trivial, fun r _ => rest r _ (owing.unreported quiet r)⟩
  bind := fun first rest past owing => Along.bind (first past owing) (fun after a => rest a after) fun _ _ owing => owing
  catched := fun rest past owing => (rest past owing).catched

theorem unreported_of_consults (o : Op) (reads : o.consults) : o.Unreported := by
  cases o with
  | sys o =>
    cases o with
    | record event => cases reads
    | _ => exact ⟨rfl, fun _ => rfl, fun _ => rfl⟩
  | canvas o =>
    cases o with
    | insertWorkflowExecution | claimWorkflowNode | updateWorkflowNodeExecution | updateWorkflowExecution
    | finalizeWorkflowExecution | cancelWorkflowExecution => cases reads
    | _ => exact ⟨rfl, fun _ => rfl, fun _ => rfl⟩
  | _ => exact ⟨rfl, fun _ => rfl, fun _ => rfl⟩

section Programs
variable {α : Type} {debts : List Debt} {past : List machine.Exchange} {Q : List machine.Exchange → Except Err α → Prop}

/-- An event is recorded. -/
theorem along_record {d : Debt} {event : NewMetricEventInput} {f : Unit → Script α} (owing : Owing (d :: debts) past)
    (pays : canvasEvent (.sys (.record event)) = some d)
    (rest : ∀ after, Owing debts after → (f ()).Along Replied (fun _ _ => True) Q after) :
    (record event >>= f).Along Replied (fun _ _ => True) Q past := by
  refine ⟨trivial, ?_⟩
  rintro _ ⟨⟨⟩, rfl⟩
  exact rest _ (owing.recorded pays _)

theorem executionMetric_event (x : WorkflowExecution) (eventType : MetricEventType) (code : String) :
    canvasEvent (.sys (.record (executionMetric x eventType code))) = some (.event eventType x.id) := rfl

theorem nodeMetric_event (n : WorkflowNodeExecution) (eventType : MetricEventType) (code : String) :
    canvasEvent (.sys (.record (nodeMetric n eventType code))) = some (.event eventType n.id) := rfl

/-- A call after which the process owes what it did, unless it failed. -/
theorem along_write {o : Op} {f : o.Resp → Script α} (owing : Owing [] past) (event : canvasEvent o = none)
    (failed : ∀ e, debtsOf ⟨o, .error e⟩ = [] ∧ closing ⟨o, .error e⟩ = none)
    (error : ∀ after e, Owing [] after → Q after (.error e))
    (rest : ∀ a, (f a).Along Replied (fun _ _ => True) Q (past ++ [⟨o, .ok a⟩])) :
    (perform o >>= f).Along Replied (fun _ _ => True) Q past := by
  refine Along.perform trivial (fun e _ => error _ e ?_) fun a _ => rest a
  exact owing.call (failed e).2 (by simp [event, (failed e).1])

theorem updateNode_balances (node : WorkflowNodeExecution) (expected : WorkflowNodeExecutionStatus) :
    Balances (updateNode node expected) := by
  intro past owing
  refine along_write owing rfl (fun _ => ⟨rfl, rfl⟩) (fun _ _ owing => owing) fun updated => ?_
  have next : ∀ debts, debtsOf ⟨.canvas (.updateWorkflowNodeExecution node expected), .ok updated⟩ = debts →
      Owing debts (past ++ [⟨.canvas (.updateWorkflowNodeExecution node expected), .ok updated⟩]) :=
    fun debts dues => owing.call rfl (by simp [dues, canvasEvent])
  have reported : ∀ eventType code, node.status.event = some eventType → updated = true →
      Leaves [] (past ++ [⟨.canvas (.updateWorkflowNodeExecution node expected), .ok updated⟩]) (do
        record (nodeMetric node eventType code)
        pure updated : Script Bool) := by
    rintro eventType code event rfl
    exact along_record (next [.event eventType node.id] (by simp [debtsOf, event])) (nodeMetric_event ..) fun _ owing => owing
  dsimp only
  split
  · rename_i won
    split
    · rename_i status
      exact reported _ _ (by rw [status]; rfl) won
    · rename_i status
      exact reported _ _ (by rw [status]; rfl) won
    · rename_i status
      exact reported _ _ (by rw [status]; rfl) won
    · rename_i status
      exact reported _ _ (by rw [status]; rfl) won
    · rename_i other₁ other₂ other₃ other₄
      refine next [] ?_
      subst won
      cases status : node.status <;> simp_all [debtsOf, WorkflowNodeExecutionStatus.event]
  · rename_i lost
    refine next [] ?_
    cases updated with
    | true => exact absurd rfl lost
    | false => rfl

theorem recordCancelled_leaves (nodes : List WorkflowNodeExecution) (owing : Owing (cancelledDebts nodes) past) : Leaves [] past (recordCancelled nodes) := by
  induction nodes generalizing past with
  | nil => exact owing
  | cons node rest ih =>
    unfold recordCancelled
    by_cases status : node.status = .cancelled
    · rw [if_pos status]
      refine along_record ?_ (nodeMetric_event ..) fun _ owing => ih owing
      simpa [cancelledDebts, status] using owing
    · rw [if_neg status]
      refine ih ?_
      simpa [cancelledDebts, status] using owing

theorem recordCancelled_pure (nodes : List WorkflowNodeExecution) (owing : Owing (cancelledDebts nodes) past) (a : α) :
    Leaves [] past (do
      recordCancelled nodes
      pure a : Script α) :=
  Along.bind (recordCancelled_leaves nodes owing) (fun _ _ owing => owing) fun _ _ owing => owing

/-- An execution was closed: its event is recorded, its nodes are listed, and the events of some of them are owed. -/
theorem closed_leaves {orgID executionID : UUID} {d : Debt} {c : machine.Exchange} (owing : Owing [] past)
    (closes : closing c = some (orgID, executionID)) (dues : debtsOf c = [d, .listing orgID executionID])
    (quiet : canvasEvent c.1 = none) {event : NewMetricEventInput} (pays : canvasEvent (.sys (.record event)) = some d)
    {f : Except Err (List WorkflowNodeExecution) → Script α}
    (rest : ∀ nodes after, Owing (cancelledDebts nodes) after → Leaves [] after (f (.ok nodes))) :
    Leaves [] (past ++ [c]) (record event >>= fun _ => tryCanvas (.getWorkflowNodeExecutions orgID executionID) >>= f) := by
  have owes : reports.Owes [d, .listing orgID executionID] (past ++ [c]) :=
    owing.owes.call (by simp [reports, listingOf_none owing.listed c, dues, quiet])
  refine ⟨trivial, ?_⟩
  rintro _ ⟨⟨⟩, rfl⟩
  have owes : reports.Owes [.listing orgID executionID] (past ++ [c] ++ [⟨.sys (.record event), .ok ()⟩]) :=
    owes.call (by simpa [reports, listingOf, debtsOf, pays] using List.Perm.swap _ _ _)
  have last : unlisted (⟨.sys (.record event), .ok ()⟩ :: c :: past.reverse) = some (orgID, executionID) := closes
  refine ⟨trivial, ?_⟩
  rintro _ ⟨nodes, rfl⟩
  refine rest nodes _ ⟨owes.call ?_, ?_, ?_⟩
  · simp [reports, listingOf, last, debtsOf, canvasEvent]
  · simp [unlisted]
  · simp [closing]

theorem failExecution_balances (execution : WorkflowExecution) (code message : String) :
    Balances (failExecution execution code message) := by
  refine closed_balances.perform (unreported_of_consults _ trivial) fun now past owing => ?_
  refine along_write owing rfl (fun _ => ⟨rfl, rfl⟩) (fun _ _ owing => owing) fun updated => ?_
  cases updated with
  | true =>
    dsimp only
    refine closed_leaves owing ?_ ?_ ?_ (executionMetric_event ..) fun nodes _ owing => recordCancelled_pure nodes owing _
    all_goals rfl
  | false => exact owing.call rfl (.refl _)

theorem markRunning_balances (execution : WorkflowExecution) : Balances (markRunning execution) := by
  unfold markRunning
  split
  · refine closed_balances.perform (unreported_of_consults _ trivial) fun now past owing => ?_
    refine along_write owing rfl (fun _ => ⟨rfl, rfl⟩) (fun _ _ owing => owing) fun updated => ?_
    cases updated with
    | true =>
      exact along_record (owing.call rfl (.refl _)) (executionMetric_event ..) fun _ owing => owing
    | false => exact owing.call rfl (.refl _)
  · exact closed_balances.ret _

theorem touchRunningExecution_balances (execution : WorkflowExecution) : Balances (touchRunningExecution execution) := by
  refine closed_balances.perform (unreported_of_consults _ trivial) fun now past owing => ?_
  refine along_write owing rfl (fun _ => ⟨rfl, rfl⟩) (fun _ _ owing => owing) fun updated => ?_
  exact owing.call rfl (by cases updated <;> exact .refl _)

theorem finalizeExecutionIfComplete_balances (definition : WorkflowDefinition) (nodes : List WorkflowNodeExecution)
    (execution : WorkflowExecution) : Balances (finalizeExecutionIfComplete definition nodes execution) := by
  unfold finalizeExecutionIfComplete
  split
  · exact touchRunningExecution_balances _
  split
  · exact touchRunningExecution_balances _
  split
  · exact closed_balances.fail _
  · refine closed_balances.perform (unreported_of_consults _ trivial) fun now past owing => ?_
    refine along_write owing rfl (fun _ => ⟨rfl, rfl⟩) (fun _ _ owing => owing) fun updated => ?_
    cases updated with
    | true =>
      refine ⟨trivial, ?_⟩
      rintro _ ⟨⟨⟩, rfl⟩
      exact (owing.call rfl (.refl _)).recorded (executionMetric_event ..) _
    | false => exact owing.call rfl (.refl _)

theorem claim_balances (orgID executionID : UUID) (nodeID : String) (now : Time) (f : Option WorkflowNodeExecution → Script α)
    (lost : Balances (f none)) (won : ∀ claimed, ∃ rest : Script α, f (some claimed) = (do
      record (nodeMetric claimed .nodeExecutionStarted "")
      rest) ∧ Balances rest) : Balances (canvas (.claimWorkflowNode orgID executionID nodeID now) >>= f) := by
  intro past owing
  refine along_write owing rfl (fun _ => ⟨rfl, rfl⟩) (fun _ _ owing => owing) fun claimed => ?_
  cases claimed with
  | none => exact lost _ (owing.call rfl (.refl _))
  | some claimed =>
    obtain ⟨rest, same, balances⟩ := won claimed
    rw [same]
    exact along_record (owing.call rfl (.refl _)) (nodeMetric_event ..) fun after owing => balances after owing

theorem balances_units : Units Op.Unreported Balances where
  closed := closed_balances
  reads := unreported_of_consults
  updates := updateNode_balances
  fails := failExecution_balances
  marks := markRunning_balances
  finalizes := finalizeExecutionIfComplete_balances
  claims := claim_balances

theorem cancelExecution_balances (orgID workflowID executionID : UUID) :
    Balances (cancelExecution orgID workflowID executionID) := by
  refine closed_balances.perform (unreported_of_consults _ trivial) fun now past owing => ?_
  refine along_write owing rfl (fun _ => ⟨rfl, rfl⟩) (fun _ _ owing => owing) fun execution => ?_
  refine closed_leaves owing ?_ ?_ ?_ (executionMetric_event ..) fun nodes _ owing => recordCancelled_pure nodes owing _
  all_goals rfl

/-! ### The start -/

/-- A program that pays is run first. -/
theorem along_balanced {β : Type} {p : Script β} {f : β → Script α} (owing : Owing [] past) (balances : Balances p)
    (error : ∀ after e, Owing [] after → Q after (.error e))
    (rest : ∀ a after, Owing [] after → (f a).Along Replied (fun _ _ => True) Q after) :
    (p >>= f).Along Replied (fun _ _ => True) Q past :=
  Along.bind (balances past owing) (fun after a => rest a after) error

/-- So is a call that changes nothing. -/
theorem along_read {o : Op} {f : o.Resp → Script α} (owing : Owing [] past) (reads : o.consults)
    (error : ∀ after e, Owing [] after → Q after (.error e))
    (rest : ∀ a after, Owing [] after → (f a).Along Replied (fun _ _ => True) Q after) :
    (perform o >>= f).Along Replied (fun _ _ => True) Q past := by
  have quiet := unreported_of_consults o reads
  exact Along.perform trivial (fun e _ => error _ e (owing.unreported quiet _)) fun a _ => rest a _ (owing.unreported quiet _)

/-- What is owed for an execution that was admitted: its event, when it was not there before. -/
def Admitted (workflowID : UUID) (after : List machine.Exchange) : Except Err (WorkflowExecution × Bool) → Prop
  | .ok (x, false) => Owing [.event .workflowExecutionCreated x.id] after ∧ x.workflowID = workflowID
  | _ => Owing [] after

theorem reuseExecution_admits {workflowID : UUID} (owing : Owing [] past) (existing : WorkflowExecution) (fingerprint : String) :
    (reuseExecution existing fingerprint).Along Replied (fun _ _ => True) (Admitted workflowID) past := by
  unfold reuseExecution
  split <;> exact owing

theorem createWorkflowExecution_admits (owing : Owing [] past) (execution : WorkflowExecution)
    (nodes : List WorkflowNodeExecution) :
    (createWorkflowExecution execution nodes).Along Replied (fun _ _ => True) (Admitted execution.workflowID) past := by
  refine Along.attempt trivial fun answer _ => ?_
  have owing := owing.unreported (unreported_of_consults
    (.canvas (.getWorkflowExecutionByIdempotency execution.orgID execution.idempotencyKey)) trivial) answer
  split
  · exact reuseExecution_admits owing _ _
  · refine along_write owing rfl (fun _ => ⟨rfl, rfl⟩) (fun _ _ owing => owing) fun inserted => ?_
    cases inserted with
    | true => exact ⟨owing.call rfl (.refl _), rfl⟩
    | false =>
      exact along_read (owing.call rfl (.refl _)) trivial (fun _ _ owing => owing)
        fun existing _ owing => reuseExecution_admits owing existing _
  · exact owing

theorem admitExecution_admits (owing : Owing [] past) (h : Host) (input : StartWorkflowExecutionInput) :
    (admitExecution h input).Along Replied (fun _ _ => True) (Admitted input.workflowID) past := by
  have error : ∀ after e, Owing [] after → Admitted input.workflowID after (.error e) := fun _ _ owing => owing
  unfold admitExecution
  simp only
  split
  · exact owing
  refine along_read owing trivial error fun workflow _ owing => ?_
  split
  · exact owing
  refine along_balanced owing (selectVersion_in closed_balances unreported_of_consults _ _ _) error fun version _ owing => ?_
  split
  · exact owing
  split
  · exact owing
  refine along_read owing trivial error fun now _ owing => ?_
  refine along_read owing trivial error fun id _ owing => ?_
  refine along_balanced owing (newNodeExecutions_in closed_balances unreported_of_consults _ _ _ _) error fun nodes _ owing => ?_
  exact createWorkflowExecution_admits owing _ _

/-! ### Requests -/

/-- Everything but writing executions and recording their metrics. -/
abbrev Footprint.unreporting : Footprint where
  runs := False
  workflows := True
  endpoints := True
  results := True
  sends := True
  deliveries := True
  create := fun _ => True
  deliver := fun _ => True
  records := fun event => event.source ≠ .taskCanvas

theorem unreported_of_within (o : Op) (within : o.within Footprint.unreporting) : o.Unreported := by
  cases o with
  | sys o =>
    cases o with
    | record event => exact ⟨if_neg within, fun _ => rfl, fun _ => rfl⟩
    | _ => exact ⟨rfl, fun _ => rfl, fun _ => rfl⟩
  | canvas o =>
    cases o with
    | insertWorkflowExecution | claimWorkflowNode | updateWorkflowNodeExecution | updateWorkflowExecution
    | finalizeWorkflowExecution | cancelWorkflowExecution => exact within.elim
    | _ => exact ⟨rfl, fun _ => rfl, fun _ => rfl⟩
  | _ => exact ⟨rfl, fun _ => rfl, fun _ => rfl⟩

theorem balances_of_calls {p : Script α} (calls : p.Calls (Op.within Footprint.unreporting)) : Balances p := by
  induction p with
  | ret a => exact closed_balances.ret a
  | fail e => exact closed_balances.fail e
  | call o k ih => exact closed_balances.call o k (unreported_of_within o calls.1) fun r => ih r (calls.2 r)

end Programs

section Requests
variable (h : Host)

theorem unreporting_records : Footprint.unreporting.Recording := by
  rintro event (source | source) canvas
  · rw [source] at canvas
    cases canvas
  · rw [source] at canvas
    cases canvas

theorem dispatchWorkflowTask_balances (orgID executionID : UUID) (nodeID : String) (config : Option (List (String × Json)))
    (input : RawMessage) : Balances (dispatchWorkflowTask h orgID executionID nodeID config input) :=
  balances_of_calls (dispatchWorkflowTask_calls (fun _ _ => trivial) (fun _ => trivial) h _ _ _ _ _ (fun _ _ _ => trivial)
    unreporting_records)

theorem dispatchWorkflowWebhook_balances (execution : WorkflowExecution) (node : WorkflowNode) (input : RawMessage) :
    Balances (dispatchWorkflowWebhook h execution node input) :=
  balances_of_calls (dispatchWorkflowWebhook_calls h _ _ _ (fun _ _ => trivial) unreporting_records.created)

theorem advanceExecution_balances (orgID workflowID executionID : UUID) :
    Balances (advanceExecution h orgID workflowID executionID) :=
  advanceExecution_in balances_units h (dispatchWorkflowTask_balances h) (dispatchWorkflowWebhook_balances h) _ _ _

theorem startExecution_balances (input : StartWorkflowExecutionInput) : Balances (startExecution h input) := by
  intro past owing
  refine Along.bind (admitExecution_admits owing h input) ?_ fun _ _ owing => owing
  rintro after ⟨execution, reused⟩ admitted
  have rest : Balances (do
      advanceExecution h execution.orgID execution.workflowID execution.id
      let current ← Script.canvas (.getWorkflowExecution execution.orgID execution.workflowID execution.id)
      pure ((⟨current.id, current.workflowID, current.workflowVersion, current.status, current.createdAt⟩ :
        WorkflowExecutionStartResult), reused)) :=
    closed_balances.bind (advanceExecution_balances h _ _ _) fun _ =>
      closed_balances.perform (unreported_of_consults _ trivial) fun _ => closed_balances.ret _
  cases reused with
  | true =>
    simp only
    split
    · exact admitted
    · exact rest _ admitted
  | false =>
    obtain ⟨owing, same⟩ := admitted
    simp only
    rw [if_neg (not_not.2 same)]
    exact along_record owing (executionMetric_event ..) fun after owing => rest after owing

/-- Every request pays for all that it does. -/
theorem body_balances (request : Request) : Balances (body h request) := by
  cases workflow : request.workflow with
  | true =>
    cases request with
    | startExecution input => exact closed_balances.bind (startExecution_balances h input) fun _ => closed_balances.ret _
    | advanceExecution orgID workflowID executionID =>
      exact closed_balances.bind (advanceExecution_balances h _ _ _) fun _ => closed_balances.ret _
    | cancelExecution orgID workflowID executionID =>
      exact closed_balances.bind (cancelExecution_balances _ _ _) fun _ => closed_balances.ret _
    | reconcileActive limit =>
      exact closed_balances.bind (reconcileActive_in balances_units h (dispatchWorkflowTask_balances h)
        (dispatchWorkflowWebhook_balances h) limit) fun _ => closed_balances.ret _
    | _ => cases workflow
  | false =>
    have other : ¬ request.workflow = true := by simp [workflow]
    exact balances_of_calls (body_calls h {
      runs := fun runs => other runs
      workflows := fun _ _ => trivial
      endpoints := fun _ _ => trivial
      results := fun _ _ _ _ => trivial
      sends := fun _ => trivial
      deliveries := fun _ => trivial
      requested := fun _ _ _ _ _ _ => trivial
      dispatched := fun runs => (other runs).elim
      events := fun _ _ => trivial
      posts := fun runs => (other runs).elim
      records := fun event _ sources => unreporting_records event (sources workflow) })

end Requests

end Windylane
