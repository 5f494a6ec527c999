import Mathlib.Data.List.Forall2
import Windylane.Run

/-! Steps of one execution keep its invariant. Every step moves the node rows one by one, leaves the resolved
    ones alone (`Moves`), and what readiness depends on are resolved rows only. -/

namespace Windylane

/-! ### Rows move forward -/

/-- One row before and after a step. -/
structure Moved (n n' : WorkflowNodeExecution) : Prop where
  same : SameNode n n'
  terminal : n.status.terminal = true → n' = n
  started : n.status ≠ .pending → n'.status ≠ .pending

abbrev Moves : List WorkflowNodeExecution → List WorkflowNodeExecution → Prop := List.Forall₂ Moved

theorem SameNode.refl (n : WorkflowNodeExecution) : SameNode n n := ⟨rfl, rfl, rfl, rfl, rfl, rfl⟩

theorem SameNode.trans {a b c : WorkflowNodeExecution} (h : SameNode a b) (h' : SameNode b c) : SameNode a c :=
  ⟨h'.id.trans h.id, h'.orgID.trans h.orgID, h'.workflowExecutionID.trans h.workflowExecutionID,
    h'.nodeID.trans h.nodeID, h'.nodeType.trans h.nodeType, h'.createdAt.trans h.createdAt⟩

theorem SameNode.symm {a b : WorkflowNodeExecution} (h : SameNode a b) : SameNode b a :=
  ⟨h.id.symm, h.orgID.symm, h.workflowExecutionID.symm, h.nodeID.symm, h.nodeType.symm, h.createdAt.symm⟩

theorem SameExecution.refl (x : WorkflowExecution) : SameExecution x x := ⟨rfl, rfl, rfl, rfl, rfl, rfl, rfl, rfl, rfl⟩

theorem SameExecution.trans {x y z : WorkflowExecution} (h : SameExecution x y) (h' : SameExecution y z) :
    SameExecution x z :=
  ⟨h'.id.trans h.id, h'.orgID.trans h.orgID, h'.workflowID.trans h.workflowID,
    h'.workflowVersionID.trans h.workflowVersionID, h'.workflowVersion.trans h.workflowVersion,
    h'.input.trans h.input, h'.idempotencyKey.trans h.idempotencyKey,
    h'.requestFingerprint.trans h.requestFingerprint, h'.createdAt.trans h.createdAt⟩

theorem Moved.refl (n : WorkflowNodeExecution) : Moved n n := ⟨.refl n, fun _ => rfl, fun hs => hs⟩

theorem moves_update {p : WorkflowNodeExecution → Bool} {f : WorkflowNodeExecution → WorkflowNodeExecution}
    {nodes : List WorkflowNodeExecution}
    (h : ∀ n ∈ nodes, p n = true → SameNode n (f n) ∧ n.status.terminal = false ∧ (f n).status ≠ .pending) :
    Moves nodes (Table.update p f nodes) := by
  refine List.forall₂_map_right_iff.2 (List.forall₂_same.2 fun n hn => ?_)
  split
  · rename_i hp
    obtain ⟨same, opened, started⟩ := h n hn hp
    exact ⟨same, (fun ht => by rw [opened] at ht; cases ht), fun _ => started⟩
  · exact .refl n

/-- With one row for a node, the lookup finds it. -/
theorem stateOf_eq_some {nodes : List WorkflowNodeExecution} (nodup : (nodes.map (·.nodeID)).Nodup) {id : String}
    {n : WorkflowNodeExecution} : stateOf nodes id = some n ↔ n ∈ nodes ∧ n.nodeID = id := by
  unfold stateOf
  constructor
  · intro h
    exact ⟨List.mem_reverse.1 (List.mem_of_find?_eq_some h), by simpa using List.find?_some h⟩
  · rintro ⟨hn, rfl⟩
    have nodup' : (nodes.reverse.map (·.nodeID)).Nodup := by
      rw [List.map_reverse]
      exact List.nodup_reverse.2 nodup
    exact Table.find?_key nodup' (List.mem_reverse.2 hn)

/-- The order of the rows does not matter to a lookup. -/
theorem stateOf_perm {nodes nodes' : List WorkflowNodeExecution} (perm : nodes.Perm nodes')
    (nodup : (nodes'.map (·.nodeID)).Nodup) (id : String) : stateOf nodes id = stateOf nodes' id := by
  refine Option.ext fun n => ?_
  rw [stateOf_eq_some nodup, stateOf_eq_some ((perm.map _).nodup_iff.2 nodup), perm.mem_iff]

/-- The row of a node moves with the rows. -/
theorem Moves.stateOf {nodes nodes' : List WorkflowNodeExecution} (h : Moves nodes nodes') {id : String}
    {n : WorkflowNodeExecution} (hn : stateOf nodes id = some n) :
    ∃ n', Windylane.stateOf nodes' id = some n' ∧ Moved n n' := by
  have hrev : List.Forall₂ Moved nodes.reverse nodes'.reverse := List.rel_reverse h
  unfold Windylane.stateOf at hn ⊢
  generalize nodes.reverse = rows at hrev hn
  generalize nodes'.reverse = rows' at hrev
  induction hrev with
  | nil => cases hn
  | @cons a b as bs moved _ ih =>
    rw [List.find?_cons] at hn ⊢
    rw [moved.same.nodeID]
    split at hn
    · cases hn
      exact ⟨b, rfl, moved⟩
    · exact ih hn

section Stable
variable {d : WorkflowDefinition} {nodes nodes' : List WorkflowNodeExecution}

/-- A resolved row stays the row of its node. -/
theorem Moves.resolved_row (h : Moves nodes nodes') {id : String} {n : WorkflowNodeExecution}
    (hn : Windylane.stateOf nodes id = some n) (hr : n.status = .succeeded ∨ n.status = .skipped) :
    Windylane.stateOf nodes' id = some n := by
  obtain ⟨n', hn', moved⟩ := h.stateOf hn
  rw [hn', moved.terminal (by rcases hr with hr | hr <;> rw [hr] <;> rfl)]

theorem Resolved.moves {id : String} (hr : Resolved nodes id) (h : Moves nodes nodes') : Resolved nodes' id := by
  obtain ⟨n, hn, hs⟩ := hr
  exact ⟨n, h.resolved_row hn hs, hs⟩

theorem ActiveEdge.moves {e : WorkflowEdge} (ha : ActiveEdge d nodes e) (h : Moves nodes nodes') :
    ActiveEdge d nodes' e := by
  obtain ⟨n, hn, hs, branch⟩ := ha
  exact ⟨n, h.resolved_row hn (Or.inl hs), hs, branch⟩

/-- An edge from a resolved node does not become active later. -/
theorem ActiveEdge.of_moves {e : WorkflowEdge} (hr : Resolved nodes e.source) (h : Moves nodes nodes')
    (ha : ActiveEdge d nodes' e) : ActiveEdge d nodes e := by
  obtain ⟨n, hn, hs⟩ := hr
  obtain ⟨n', hn', hs', branch⟩ := ha
  rw [h.resolved_row hn hs] at hn'
  cases hn'
  exact ⟨n, hn, hs', branch⟩

theorem Runnable.moves {m : WorkflowNode} (hr : Runnable d nodes m) (h : Moves nodes nodes') : Runnable d nodes' m := by
  rcases hr with trigger | ⟨other, resolved, e, he, active⟩
  · exact Or.inl trigger
  · exact Or.inr ⟨other, fun e he => (resolved e he).moves h, e, he, active.moves h⟩

theorem Skippable.moves {m : WorkflowNode} (hs : Skippable d nodes m) (h : Moves nodes nodes') :
    Skippable d nodes' m := by
  obtain ⟨other, resolved, inactive⟩ := hs
  exact ⟨other, fun e he => (resolved e he).moves h, fun e he active =>
    inactive e he (ActiveEdge.of_moves (resolved e he) h active)⟩

theorem Runnable.not_skippable {m : WorkflowNode} (hr : Runnable d nodes m) : ¬ Skippable d nodes m := by
  rintro ⟨other, -, inactive⟩
  rcases hr with trigger | ⟨-, -, e, he, active⟩
  · exact other trigger
  · exact inactive e he active

end Stable

/-! ### Readiness -/

section Readiness
variable {d : WorkflowDefinition} {nodes : List WorkflowNodeExecution}

/-- What the loop over the incoming edges decides. -/
theorem readinessLoop_spec {edges : List WorkflowEdge} {count : Nat} {ready : Readiness}
    (h : readinessLoop d nodes edges count = .ok ready) (decided : ready ≠ .waiting) :
    (∀ e ∈ edges, Resolved nodes e.source) ∧
      (ready = .runnable ↔ 0 < count ∨ ∃ e ∈ edges, ActiveEdge d nodes e) := by
  induction edges generalizing count with
  | nil =>
    simp only [readinessLoop, Except.ok.injEq] at h
    subst h
    cases count <;> simp
  | cons edge rest ih =>
    unfold readinessLoop at h
    cases hsrc : stateOf nodes edge.source with
    | none =>
      simp only [hsrc, Except.ok.injEq] at h
      exact (decided h.symm).elim
    | some source =>
      simp only [hsrc] at h
      split at h
      · cases h
        exact (decided rfl).elim
      split at h
      · cases h
        exact (decided rfl).elim
      rename_i terminal ended
      split at h
      · -- a skipped source resolves the edge and does not activate it
        rename_i skipped
        obtain ⟨resolved, iff⟩ := ih h
        have inactive : ¬ ActiveEdge d nodes edge := by
          rintro ⟨n, hn, hs, -⟩
          rw [hsrc] at hn
          cases hn
          cases skipped.symm.trans hs
        refine ⟨?_, ?_⟩
        · exact List.forall_mem_cons.2 ⟨⟨source, hsrc, Or.inr skipped⟩, resolved⟩
        · simp only [iff, List.exists_mem_cons_iff, inactive, false_or]
      · rename_i unskipped
        have succeeded : source.status = .succeeded := by
          cases hs : source.status <;> simp_all [WorkflowNodeExecutionStatus.terminal]
        have resolves : Resolved nodes edge.source := ⟨source, hsrc, Or.inl succeeded⟩
        have active : ActiveEdge d nodes edge →
            readinessLoop d nodes rest (count + 1) = .ok ready →
            (∀ e ∈ edge :: rest, Resolved nodes e.source) ∧
              (ready = .runnable ↔ 0 < count ∨ ∃ e ∈ edge :: rest, ActiveEdge d nodes e) := by
          intro active h
          obtain ⟨resolved, iff⟩ := ih h
          refine ⟨List.forall_mem_cons.2 ⟨resolves, resolved⟩, ?_⟩
          simp [iff, active]
        split at h
        · rename_i cond
          cases hb : parseWorkflowBranch edge.condition with
          | error e =>
            simp only [hb] at h
            cases h
          | ok branch =>
            cases branch with
            | none =>
              simp only [hb] at h
              exact active ⟨source, hsrc, succeeded, fun _ b hb' => by rw [hb] at hb'; cases hb'⟩ h
            | some branch =>
              cases hres : workflowConditionResult source.output with
              | error e =>
                simp only [hb, hres] at h
                cases h
              | ok result =>
                simp only [hb, hres] at h
                split at h
                · rename_i differs
                  obtain ⟨resolved, iff⟩ := ih h
                  have inactive : ¬ ActiveEdge d nodes edge := by
                    rintro ⟨n, hn, -, branches⟩
                    rw [hsrc] at hn
                    cases hn
                    have := branches cond branch hb
                    rw [hres] at this
                    exact differs (Except.ok.inj this)
                  refine ⟨List.forall_mem_cons.2 ⟨resolves, resolved⟩, ?_⟩
                  simp only [iff, List.exists_mem_cons_iff, inactive, false_or]
                · rename_i agrees
                  refine active ⟨source, hsrc, succeeded, fun _ b hb' => ?_⟩ h
                  rw [hb] at hb'
                  cases hb'
                  rw [hres, not_not.1 agrees]
        · rename_i other
          exact active ⟨source, hsrc, succeeded, fun cond => (other cond).elim⟩ h

/-- `workflowNodeReadiness` says what a node is to do. -/
theorem workflowNodeReadiness_spec {m : WorkflowNode} {ready : Readiness}
    (h : workflowNodeReadiness d nodes m = .ok ready) (decided : ready ≠ .waiting) :
    (ready = .runnable → Runnable d nodes m) ∧ (ready = .shouldSkip → Skippable d nodes m) := by
  unfold workflowNodeReadiness at h
  split at h
  · rename_i trigger
    cases h
    exact ⟨fun _ => Or.inl trigger, fun hs => by cases hs⟩
  split at h
  · cases h
    exact (decided rfl).elim
  · rename_i other _
    obtain ⟨resolved, iff⟩ := readinessLoop_spec h decided
    simp only [Nat.lt_irrefl, false_or] at iff
    refine ⟨fun hr => Or.inr ⟨other, resolved, iff.1 hr⟩, fun hs => ⟨other, resolved, fun e he active => ?_⟩⟩
    have := iff.2 ⟨e, he, active⟩
    rw [hs] at this
    cases this

end Readiness

/-! ### Steps keep the invariant -/

section Steps
variable {g : Rules} {r r' : Run}

theorem RowOK.moves {n : WorkflowNodeExecution} (h : RowOK g r n) {x : WorkflowExecution}
    {nodes : List WorkflowNodeExecution} (same : SameExecution r.execution x) (moves : Moves r.nodes nodes) :
    RowOK g ⟨x, nodes⟩ n where
  links := h.links
  output := h.output
  untouched := h.untouched
  ready := fun hp hc m hm hid => (h.ready hp hc m hm hid).imp (·.moves moves) (·.moves moves)
  engaged := fun strict he m hm hid => (h.engaged strict he m hm hid).moves moves
  skipped := fun hs m hm hid => (h.skipped hs m hm hid).moves moves
  result := fun hs m hm hid hc => by
    rw [show (⟨x, nodes⟩ : Run).execution.input = r.execution.input from same.input]
    exact h.result hs m hm hid hc
  work := h.work

theorem RunInv.update (h : RunInv g r) {p : WorkflowNodeExecution → Bool}
    {f : WorkflowNodeExecution → WorkflowNodeExecution} {x : WorkflowExecution} (same : SameExecution r.execution x)
    (hf : ∀ n ∈ r.nodes, p n = true → SameNode n (f n) ∧ n.status.terminal = false ∧ (f n).status ≠ .pending ∧ RowOK g r (f n))
    (live : x.status.terminal = false → ∀ n ∈ r.nodes, (if p n then f n else n).status ≠ .cancelled)
    (closed : x.status.terminal = true → ∀ n ∈ r.nodes, (if p n then f n else n).status.terminal = true)
    (complete : x.status = .succeeded → ∀ n ∈ r.nodes,
      (if p n then f n else n).status = .succeeded ∨ (if p n then f n else n).status = .skipped) :
    RunInv g ⟨x, Table.update p f r.nodes⟩ := by
  have moves : Moves r.nodes (Table.update p f r.nodes) :=
    moves_update fun n hn hp => ⟨(hf n hn hp).1, (hf n hn hp).2.1, (hf n hn hp).2.2.1⟩
  have column : ∀ {κ : Type} (col : WorkflowNodeExecution → κ), (∀ n n', SameNode n n' → col n' = col n) →
      (Table.update p f r.nodes).map col = r.nodes.map col := by
    intro κ col hcol
    rw [Table.update, List.map_map]
    refine List.map_congr_left fun n hn => ?_
    simp only [Function.comp]
    split
    · exact hcol n _ (hf n hn ‹_›).1
    · rfl
  have each : ∀ {P : WorkflowNodeExecution → Prop}, (∀ n ∈ r.nodes, P (if p n then f n else n)) →
      ∀ n ∈ Table.update p f r.nodes, P n := by
    intro P hP n hn
    obtain ⟨q, hq, rfl⟩ := Table.mem_update.1 hn
    exact hP q hq
  exact {
    keys := (column (fun n => (n.nodeID, n.nodeType)) fun n n' s => by rw [s.nodeID, s.nodeType]).trans h.keys
    nodeIDs := by
      rw [column (·.nodeID) fun n n' s => s.nodeID]
      exact h.nodeIDs
    ids := by
      rw [column (·.id) fun n n' s => s.id]
      exact h.ids
    owned := each fun n hn => by
      obtain ⟨org, exec⟩ := h.owned n hn
      have hn' : SameNode n (if p n then f n else n) := by
        split
        · exact (hf n hn ‹_›).1
        · exact .refl n
      exact ⟨hn'.orgID.trans (org.trans same.orgID.symm), hn'.workflowExecutionID.trans (exec.trans same.id.symm)⟩
    rows := each fun n hn => by
      refine RowOK.moves (r := r) ?_ same moves
      split
      · exact (hf n hn ‹_›).2.2.2
      · exact h.rows n hn
    input := same.input ▸ h.input
    live := fun hx => each (live hx)
    closed := fun hx => each (closed hx)
    complete := fun hx => each (complete hx) }

/-- The definition node of a row. -/
theorem RunInv.node_of_row (h : RunInv g r) {n : WorkflowNodeExecution} (hn : n ∈ r.nodes) :
    ∃ m ∈ g.definition.nodeList, m.id = n.nodeID ∧ m.type = n.nodeType := by
  have hm : (n.nodeID, n.nodeType) ∈ r.nodes.map (fun n => (n.nodeID, n.nodeType)) := List.mem_map.2 ⟨n, hn, rfl⟩
  rw [h.keys] at hm
  obtain ⟨m, hm, he⟩ := List.mem_map.1 hm
  exact ⟨m, hm, congrArg Prod.fst he, congrArg Prod.snd he⟩

theorem RunInv.row_of_node (h : RunInv g r) {m : WorkflowNode} (hm : m ∈ g.definition.nodeList) :
    ∃ n ∈ r.nodes, n.nodeID = m.id ∧ n.nodeType = m.type := by
  have hn : (m.id, m.type) ∈ g.definition.nodeList.map (fun m => (m.id, m.type)) := List.mem_map.2 ⟨m, hm, rfl⟩
  rw [← h.keys] at hn
  obtain ⟨n, hn, he⟩ := List.mem_map.1 hn
  exact ⟨n, hn, congrArg Prod.fst he, congrArg Prod.snd he⟩

theorem RunInv.definition_ids (h : RunInv g r) : (g.definition.nodeList.map (·.id)).Nodup := by
  have := h.nodeIDs
  rwa [show r.nodes.map (·.nodeID) = g.definition.nodeList.map (·.id) by
    simpa [Function.comp_def] using congrArg (List.map Prod.fst) h.keys] at this

/-- Nodes of the definition with one id are one node. -/
theorem RunInv.node_eq (h : RunInv g r) {m m' : WorkflowNode} (hm : m ∈ g.definition.nodeList)
    (hm' : m' ∈ g.definition.nodeList) (he : m.id = m'.id) : m = m' := Table.eq_of_key h.definition_ids hm hm' he

/-- A row of the same node as a given one has its type. -/
theorem RunInv.type_eq (h : RunInv g r) {m : WorkflowNode} {n node : WorkflowNodeExecution}
    (hm : m ∈ g.definition.nodeList) (hn : n ∈ r.nodes) (same : SameNode n node) (hid : m.id = node.nodeID) :
    m.type = node.nodeType := by
  obtain ⟨m', hm', hid', htype⟩ := h.node_of_row hn
  rw [h.node_eq hm hm' (hid.trans (same.nodeID.trans hid'.symm)), htype, same.nodeType]

theorem overwrite_eq {n node : WorkflowNodeExecution} (same : SameNode n node) : Canvas.overwrite node n = node := by
  obtain ⟨h1, h2, h3, h4, h5, h6⟩ := same
  cases n
  cases node
  simp only at h1 h2 h3 h4 h5 h6
  subst h1 h2 h3 h4 h5 h6
  rfl

/-- A row that is overwritten by id becomes what was stored. -/
theorem RunInv.overwrite_row (h : RunInv g r) {n node : WorkflowNodeExecution}
    (row : ∃ n ∈ r.nodes, SameNode n node) (hn : n ∈ r.nodes) (hid : n.id = node.id) :
    SameNode n node ∧ Canvas.overwrite node n = node := by
  obtain ⟨q, hq, same⟩ := row
  rw [Table.eq_of_key h.ids hn hq (hid.trans same.id)]
  exact ⟨same, overwrite_eq same⟩

theorem RunInv.claim (h : RunInv g r) {m : WorkflowNode} {p : WorkflowNodeExecution → Bool} {now : Time}
    (member : m ∈ g.definition.nodeList) (ready : Runnable g.definition r.nodes m ∨ Skippable g.definition r.nodes m)
    (which : ∀ n ∈ r.nodes, p n = true → n.nodeID = m.id ∧ n.status = .pending) :
    RunInv g { r with nodes := Table.update p (Canvas.claimed now) r.nodes } := by
  refine h.update (.refl _) (fun n hn hp => ?_) (fun hx n hn => ?_) (fun hx n hn => ?_) fun hx n hn => ?_
  · obtain ⟨hid, hs⟩ := which n hn hp
    refine ⟨⟨rfl, rfl, rfl, rfl, rfl, rfl⟩, by rw [hs]; rfl, (fun hp => by cases hp), ?_⟩
    have unlinked := (h.rows n hn).untouched hs
    exact {
      links := ⟨(h.rows n hn).links.task, (h.rows n hn).links.webhook⟩
      output := (h.rows n hn).output
      untouched := fun hp => by cases hp
      ready := fun _ _ m' hm' hid' => by
        rw [h.node_eq hm' member (hid'.trans hid)]
        exact ready
      engaged := by
        rintro - (he | he | he | he)
        · cases he
        · cases he
        · cases he
        · exact (he ⟨unlinked.task, unlinked.webhook, unlinked.delay⟩).elim
      skipped := fun hs => by cases hs
      result := fun hs => by cases hs
      work := fun hs => by cases hs }
  · split
    · exact fun he => by cases he
    · exact h.live hx n hn
  · split
    · rename_i hp
      have := h.closed hx n hn
      rw [(which n hn hp).2] at this
      cases this
    · exact h.closed hx n hn
  · have hr := h.complete hx n hn
    split
    · rename_i hp
      rw [(which n hn hp).2] at hr
      rcases hr with hr | hr <;> cases hr
    · exact hr

/-- A row with an open status is stored over by id. -/
theorem RunInv.store (h : RunInv g r) {node : WorkflowNodeExecution} {p : WorkflowNodeExecution → Bool}
    (row : ∃ n ∈ r.nodes, SameNode n node) (ok : ∀ n ∈ r.nodes, p n = true → RowOK g r node)
    (status : node.status ≠ .cancelled) (started : node.status ≠ .pending)
    (which : ∀ n ∈ r.nodes, p n = true → n.id = node.id ∧ n.status.terminal = false) :
    RunInv g { r with nodes := Table.update p (Canvas.overwrite node) r.nodes } := by
  have closed : r.execution.status.terminal = true → ∀ n ∈ r.nodes, ¬ p n = true := by
    intro hx n hn hp
    have := h.closed hx n hn
    rw [(which n hn hp).2] at this
    cases this
  refine h.update (.refl _) (fun n hn hp => ?_) (fun hx n hn => ?_) (fun hx n hn => ?_) fun hx n hn => ?_
  · obtain ⟨hid, hs⟩ := which n hn hp
    obtain ⟨same, he⟩ := h.overwrite_row row hn hid
    rw [he]
    exact ⟨same, hs, started, ok n hn hp⟩
  · split
    · exact status
    · exact h.live hx n hn
  · rw [if_neg (closed hx n hn)]
    exact h.closed hx n hn
  · rw [if_neg (closed (by rw [hx]; rfl) n hn)]
    exact h.complete hx n hn

theorem Settles.started {m : WorkflowNode} {node : WorkflowNodeExecution} {expected : WorkflowNodeExecutionStatus}
    (settles : Settles g r m node expected) : node.status ≠ .pending := by
  intro hp
  rcases settles.status with hs | hs | hs | hs <;> cases hs.symm.trans hp

theorem RunInv.settle (h : RunInv g r) {m : WorkflowNode} {node : WorkflowNodeExecution}
    {expected : WorkflowNodeExecutionStatus} {p : WorkflowNodeExecution → Bool} (settles : Settles g r m node expected)
    (which : ∀ n ∈ r.nodes, p n = true → n.id = node.id ∧ n.status = expected) :
    RunInv g { r with nodes := Table.update p (Canvas.overwrite node) r.nodes } := by
  have one : ∀ m' ∈ g.definition.nodeList, m'.id = node.nodeID → m' = m := fun m' hm' hid =>
    h.node_eq hm' settles.member (hid.trans settles.nodeID.symm)
  refine h.store settles.row (fun n hn hp => ?_) ?_ settles.started fun n hn hp => ?_
  · obtain ⟨hid, hs⟩ := which n hn hp
    obtain ⟨same, -⟩ := h.overwrite_row settles.row hn hid
    exact {
      links := settles.links
      output := settles.output
      untouched := fun hp => (settles.started hp).elim
      -- the row was claimed before, so its node is ready
      ready := fun _ _ m' hm' hid' => by
        refine (h.rows n hn).ready ?_ ?_ m' hm' (hid'.trans same.nodeID) <;>
          rcases settles.expected with he | he <;> rw [hs, he] <;> exact fun hc => by cases hc
      engaged := fun strict _ m' hm' hid' => by
        rw [one m' hm' hid']
        exact settles.runnable strict
      skipped := fun hk => by rcases settles.status with hs | hs | hs | hs <;> cases hs.symm.trans hk
      result := fun hs m' hm' hid' htype => by
        rw [one m' hm' hid'] at htype ⊢
        exact settles.result hs htype
      work := settles.work }
  · intro hc
    rcases settles.status with hs | hs | hs | hs <;> cases hs.symm.trans hc
  · obtain ⟨hid, hs⟩ := which n hn hp
    refine ⟨hid, ?_⟩
    rcases settles.expected with he | he <;> rw [hs, he] <;> rfl

theorem RunInv.skip (h : RunInv g r) {m : WorkflowNode} {node : WorkflowNodeExecution}
    {p : WorkflowNodeExecution → Bool} (member : m ∈ g.definition.nodeList) (nodeID : m.id = node.nodeID)
    (row : ∃ n ∈ r.nodes, SameNode n node) (status : node.status = .skipped) (unlinked : Unlinked node)
    (output : Sound node.output) (skippable : Skippable g.definition r.nodes m)
    (which : ∀ n ∈ r.nodes, p n = true → n.id = node.id ∧ n.status = .running) :
    RunInv g { r with nodes := Table.update p (Canvas.overwrite node) r.nodes } := by
  have one : ∀ m' ∈ g.definition.nodeList, m'.id = node.nodeID → m' = m := fun m' hm' hid =>
    h.node_eq hm' member (hid.trans nodeID.symm)
  refine h.store row (fun n hn hp => ?_) (by simp [status]) (by simp [status]) fun n hn hp => ?_
  · exact {
      links := ⟨fun hl => (hl unlinked.task).elim, fun hl => (hl unlinked.webhook).elim⟩
      output := output
      untouched := fun _ => unlinked
      ready := fun _ _ m' hm' hid => Or.inr (one m' hm' hid ▸ skippable)
      engaged := by
        rintro - (he | he | he | he)
        · cases status.symm.trans he
        · cases status.symm.trans he
        · cases status.symm.trans he
        · exact (he unlinked).elim
      skipped := fun _ m' hm' hid => one m' hm' hid ▸ skippable
      result := fun hs => by cases status.symm.trans hs
      work := fun hs => by cases status.symm.trans hs }
  · obtain ⟨hid, hs⟩ := which n hn hp
    exact ⟨hid, by rw [hs]; rfl⟩

theorem RunInv.close (h : RunInv g r) {x : WorkflowExecution} {code message : String} {now : Time}
    {p : WorkflowNodeExecution → Bool} (same : SameExecution r.execution x)
    (status : x.status = .failed ∨ x.status = .cancelled)
    (which : ∀ n ∈ r.nodes, p n = true ↔ n.status.terminal = false) :
    RunInv g ⟨x, Table.update p (Canvas.closed code message now) r.nodes⟩ := by
  refine h.update same (fun n hn hp => ?_) (fun hx n hn => ?_) (fun hx n hn => ?_) fun hx n hn => ?_
  · have ok := h.rows n hn
    refine ⟨⟨rfl, rfl, rfl, rfl, rfl, rfl⟩, (which n hn).1 hp, (fun hp => by cases hp), ?_⟩
    exact {
      links := ⟨ok.links.task, ok.links.webhook⟩
      output := ok.output
      untouched := fun hs => by cases hs
      ready := fun _ hc => (hc rfl).elim
      engaged := by
        rintro strict (he | he | he | he)
        · cases he
        · cases he
        · cases he
        · exact ok.engaged strict (Or.inr (Or.inr (Or.inr fun hu => he ⟨hu.task, hu.webhook, hu.delay⟩)))
      skipped := fun hs => by cases hs
      result := fun hs => by cases hs
      work := fun hs => by cases hs }
  · rcases status with hs | hs <;> rw [hs] at hx <;> cases hx
  · split
    · rfl
    · rename_i hp
      rw [which n hn] at hp
      simpa using hp
  · rcases status with hs | hs <;> cases hs.symm.trans hx

/-- Every step keeps the invariant. -/
theorem RunStep.inv (step : RunStep g r r') (h : RunInv g r) : RunInv g r' := by
  cases step with
  | touch x live same running =>
    have := h.update (p := fun _ => false) (f := id) same (fun _ _ hp => by cases hp) (fun _ => h.live live)
      (fun hx => by rw [running] at hx; cases hx) (fun hx => by cases running.symm.trans hx)
    rwa [Table.update_of_not fun _ _ => rfl] at this
  | claim m p now member ready which => exact h.claim member ready which
  | skip m node p member nodeID row status unlinked output skippable which =>
    exact h.skip member nodeID row status unlinked output skippable which
  | settle m node expected p settles which => exact h.settle settles which
  | finish x live same succeeded resolved =>
    have := h.update (p := fun _ => false) (f := id) same (fun _ _ hp => by cases hp)
      (fun hx => by rw [succeeded] at hx; cases hx)
      (fun _ n hn => by rcases resolved n hn with hs | hs <;> simp [hs, WorkflowNodeExecutionStatus.terminal])
      (fun _ => resolved)
    rwa [Table.update_of_not fun _ _ => rfl] at this
  | close x code message now p live same status which => exact h.close same status which

theorem RunStep.same (step : RunStep g r r') : SameExecution r.execution r'.execution := by
  cases step with
  | touch x live same running => exact same
  | finish x live same succeeded resolved => exact same
  | close x code message now p live same status which => exact same
  | claim => exact .refl _
  | skip => exact .refl _
  | settle => exact .refl _

theorem RunStep.moves (step : RunStep g r r') : Moves r.nodes r'.nodes := by
  cases step with
  | touch | finish => exact List.forall₂_same.2 fun n _ => .refl n
  | claim m p now member ready which =>
    refine moves_update fun n hn hp => ⟨⟨rfl, rfl, rfl, rfl, rfl, rfl⟩, ?_, fun hs => by cases hs⟩
    rw [(which n hn hp).2]
    rfl
  | skip m node p member nodeID row status unlinked output skippable which =>
    refine moves_update fun n hn hp => ⟨⟨rfl, rfl, rfl, rfl, rfl, rfl⟩, ?_, fun hs => by cases status.symm.trans hs⟩
    rw [(which n hn hp).2]
    rfl
  | settle m node expected p settles which =>
    refine moves_update fun n hn hp => ⟨⟨rfl, rfl, rfl, rfl, rfl, rfl⟩, ?_, settles.started⟩
    rw [(which n hn hp).2]
    rcases settles.expected with he | he <;> rw [he] <;> rfl
  | close x code message now p live same status which =>
    exact moves_update fun n hn hp => ⟨⟨rfl, rfl, rfl, rfl, rfl, rfl⟩, (which n hn).1 hp, fun hs => by cases hs⟩

/-- An execution that has ended does not change, nor do its nodes. -/
theorem RunStep.frozen (step : RunStep g r r') (h : RunInv g r) (ended : r.execution.status.terminal = true) :
    r' = r := by
  have unmatched : ∀ {p : WorkflowNodeExecution → Bool} {f : WorkflowNodeExecution → WorkflowNodeExecution},
      (∀ n ∈ r.nodes, p n = true → n.status.terminal = false) → Table.update p f r.nodes = r.nodes := by
    intro p f hp
    refine Table.update_of_not fun n hn => ?_
    cases hpn : p n with
    | false => rfl
    | true =>
      have := h.closed ended n hn
      rw [hp n hn hpn] at this
      cases this
  cases step with
  | touch x live | finish x live | close x code message now p live =>
    rw [ended] at live
    cases live
  | claim m p now member ready which =>
    rw [unmatched fun n hn hp => by rw [(which n hn hp).2]; rfl]
  | skip m node p member nodeID row status unlinked output skippable which =>
    rw [unmatched fun n hn hp => by rw [(which n hn hp).2]; rfl]
  | settle m node expected p settles which =>
    rw [unmatched fun n hn hp => by rw [(which n hn hp).2]; rcases settles.expected with he | he <;> rw [he] <;> rfl]

theorem RunInv.initial {d : WorkflowDefinition} {strict : Prop} {done : WorkflowNodeExecution → Prop}
    (h : Initial d r) : RunInv ⟨d, strict, done⟩ r where
  keys := h.keys
  nodeIDs := h.nodeIDs
  ids := h.ids
  owned := h.owned
  input := h.input
  rows := by
    intro n hn
    obtain ⟨hs, unlinked, output⟩ := h.untouched n hn
    exact {
      links := ⟨fun hl => (hl unlinked.task).elim, fun hl => (hl unlinked.webhook).elim⟩
      output := Or.inl (by rw [output]; rfl)
      untouched := fun _ => unlinked
      ready := fun hp => (hp hs).elim
      engaged := by
        rintro - (he | he | he | he)
        · cases hs.symm.trans he
        · cases hs.symm.trans he
        · cases hs.symm.trans he
        · exact (he unlinked).elim
      skipped := fun hk => by cases hs.symm.trans hk
      result := fun hk => by cases hs.symm.trans hk
      work := fun hk => by cases hs.symm.trans hk }
  live := fun _ n hn hc => by cases (h.untouched n hn).1.symm.trans hc
  closed := fun hx => by rw [h.pending] at hx; cases hx
  complete := fun hx => by cases h.pending.symm.trans hx

/-- Work that is done stays done. -/
theorem RunInv.later {d : WorkflowDefinition} {strict : Prop} {done done' : WorkflowNodeExecution → Prop}
    (hd : ∀ n, done n → done' n) (h : RunInv ⟨d, strict, done⟩ r) : RunInv ⟨d, strict, done'⟩ r :=
  { h with
    rows := fun n hn => { h.rows n hn with work := fun hs => hd n ((h.rows n hn).work hs) } }

end Steps

end Windylane
