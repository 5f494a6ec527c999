import Mathlib.Data.List.TakeWhile
import Windylane.Service.Workflows
import Windylane.Calls
import Windylane.Theorems.Validation

/-! What `parseWorkflowDefinition` accepts, and what `ValidateWorkflowDefinition` can still refuse in it: the two
    check the same structure in loops of their own. -/

namespace Windylane

/-! ### Trimmed texts -/

section
variable {α : Type} {p : α → Bool} {l : List α}

/-- Nothing is left of a list when every entry is taken off. -/
theorem trimmed_eq_nil : ((l.dropWhile p).reverse.dropWhile p).reverse = [] ↔ ∀ c ∈ l, p c = true := by
  rw [List.reverse_eq_nil_iff, List.dropWhile_eq_nil_iff]
  constructor
  · intro all
    rw [← List.dropWhile_eq_nil_iff]
    by_contra some
    have kept := List.head_dropWhile_not p some
    rw [all _ (List.mem_reverse.2 (List.head_mem some))] at kept
    cases kept
  · exact fun all c hc => all c ((List.dropWhile_suffix p).subset (List.mem_reverse.1 hc))

/-- What is left has an entry that is not to be taken off. -/
theorem trimmed_keeps (left : ((l.dropWhile p).reverse.dropWhile p).reverse ≠ []) :
    ∃ c ∈ ((l.dropWhile p).reverse.dropWhile p).reverse, p c = false := by
  have left := mt List.reverse_eq_nil_iff.2 left
  exact ⟨_, List.mem_reverse.2 (List.head_mem left), List.head_dropWhile_not p left⟩

end

theorem trimSpace_eq_empty {s : String} : trimSpace s = "" ↔ ∀ c ∈ s.toList, isSpace c = true := by
  rw [trimSpace, String.ofList_eq_empty_iff, trimmed_eq_nil]

/-- What is left of a text that is not blank has a character that is not white space. -/
theorem trimSpace_text {s : String} (text : trimSpace s ≠ "") : ∃ c ∈ (trimSpace s).toList, isSpace c = false := by
  rw [trimSpace, Ne, String.ofList_eq_empty_iff] at text
  rw [trimSpace, String.toList_ofList]
  exact trimmed_keeps text

/-! ### Stored definitions -/

/-- A node that is stored. -/
structure NodeIngested (n : WorkflowNode) : Prop where
  id : n.id ≠ ""
  idText : ∃ c ∈ n.id.toList, isSpace c = false
  name : n.name ≠ ""
  nameText : ∃ c ∈ n.name.toList, isSpace c = false
  type : n.type.valid = true
  config : n.config ≠ none

theorem parseNodes_spec {nodes out : List WorkflowNode} {seen : List String} (parsed : parseNodes nodes seen = some out) :
    (∀ n ∈ out, NodeIngested n) ∧ (out.map (·.id)).Nodup ∧ ∀ n ∈ out, n.id ∉ seen := by
  induction nodes generalizing seen out with
  | nil =>
    cases parsed
    simp
  | cons node rest ih =>
    simp only [parseNodes] at parsed
    split at parsed
    · cases parsed
    · rename_i fine
      obtain ⟨out, others, rfl⟩ := Option.map_eq_some_iff.1 parsed
      obtain ⟨each, distinct, new⟩ := ih others
      simp only [not_or, Bool.not_eq_false, Bool.not_eq_true, Option.isNone_eq_false_iff, Option.isSome_iff_ne_none] at fine
      obtain ⟨id, -, name, -, type, config, unseen⟩ := fine
      simp only [List.mem_append, List.mem_singleton, not_or] at new
      refine ⟨List.forall_mem_cons.2 ⟨⟨id, trimSpace_text id, name, trimSpace_text name, type, config⟩, each⟩, ?_,
        List.forall_mem_cons.2 ⟨unseen, fun n hn => (new n hn).1⟩⟩
      rw [List.map_cons, List.nodup_cons]
      refine ⟨fun again => ?_, distinct⟩
      obtain ⟨n, hn, same⟩ := List.mem_map.1 again
      exact (new n hn).2 same

/-- An edge that is stored, over the ids of the nodes. -/
structure EdgeIngested (nodes : List String) (e : WorkflowEdge) : Prop where
  id : e.id ≠ ""
  source : e.source ∈ nodes
  target : e.target ∈ nodes
  condition : e.condition ≠ .empty

theorem parseEdges_spec {nodes : List String} {edges out : List WorkflowEdge} {seen : List String}
    (parsed : parseEdges nodes edges seen = some out) :
    (∀ e ∈ out, EdgeIngested nodes e) ∧ (out.map (·.id)).Nodup ∧ ∀ e ∈ out, e.id ∉ seen := by
  induction edges generalizing seen out with
  | nil =>
    cases parsed
    simp
  | cons edge rest ih =>
    simp only [parseEdges] at parsed
    split at parsed
    · cases parsed
    · rename_i fine
      obtain ⟨out, others, rfl⟩ := Option.map_eq_some_iff.1 parsed
      obtain ⟨each, distinct, new⟩ := ih others
      simp only [not_or, Classical.not_not] at fine
      obtain ⟨id, -, -, -, unseen, source, target⟩ := fine
      have condition : (if edge.condition.isEmpty then .json .null else edge.condition) ≠ RawMessage.empty := by
        cases edge.condition <;> simp [RawMessage.isEmpty]
      simp only [List.mem_append, List.mem_singleton, not_or] at new
      refine ⟨List.forall_mem_cons.2 ⟨⟨id, source, target, condition⟩, each⟩, ?_,
        List.forall_mem_cons.2 ⟨unseen, fun e he => (new e he).1⟩⟩
      rw [List.map_cons, List.nodup_cons]
      refine ⟨fun again => ?_, distinct⟩
      obtain ⟨e, he, same⟩ := List.mem_map.1 again
      exact (new e he).2 same

/-- A definition that is stored. -/
structure Ingested (d : WorkflowDefinition) : Prop where
  nodesGiven : d.nodes ≠ none
  edgesGiven : d.edges ≠ none
  nodes : ∀ n ∈ d.nodeList, NodeIngested n
  nodeIDs : (d.nodeList.map (·.id)).Nodup
  edges : ∀ e ∈ d.edgeList, EdgeIngested (d.nodeList.map (·.id)) e
  edgeIDs : (d.edgeList.map (·.id)).Nodup

theorem parseWorkflowDefinition_ingested {h : Host} {raw : RawMessage} {d : WorkflowDefinition}
    (parsed : parseWorkflowDefinition h raw = some d) : Ingested d := by
  unfold parseWorkflowDefinition at parsed
  split at parsed
  · cases parsed
  simp only [Option.bind_eq_bind, Option.bind_eq_some_iff] at parsed
  obtain ⟨decoded, -, given, -, nodes, parsedNodes, givenEdges, -, edges, parsedEdges, same⟩ := parsed
  cases same
  obtain ⟨eachNode, nodeIDs, -⟩ := parseNodes_spec parsedNodes
  obtain ⟨eachEdge, edgeIDs, -⟩ := parseEdges_spec parsedEdges
  exact ⟨Option.some_ne_none _, Option.some_ne_none _, eachNode, nodeIDs, eachEdge, edgeIDs⟩

/-! ### What is left to refuse -/

section
variable {uuidParse : String → Option UUID}

theorem mem_addErrorIf {cond : Prop} [Decidable cond] {code message path : String} {e : WorkflowValidationError}
    (mem : e ∈ addErrorIf cond code message path) : cond ∧ e = ⟨code, message, path⟩ := by
  unfold addErrorIf at mem
  split at mem
  · exact ⟨‹_›, List.mem_singleton.1 mem⟩
  · cases mem

theorem mem_addErrorOf {err : Option String} {code path : String} {e : WorkflowValidationError}
    (mem : e ∈ addErrorOf err code path) : e.code = code := by
  obtain ⟨_, -, rfl⟩ := List.mem_map.1 mem
  rfl

/-- Of a stored node that is not registered yet, only the configuration can be wrong. -/
theorem NodeIngested.errors {n : WorkflowNode} (fine : NodeIngested n) {nodes : List (String × WorkflowNode)}
    (new : nodes.lookup n.id = none) {index : Nat} {e : WorkflowValidationError}
    (mem : e ∈ nodeErrors uuidParse nodes index n) : e.code = "invalid_node_config" := by
  have given : n.config.isNone = false := by
    rw [Option.isNone_eq_false_iff]
    exact Option.isSome_iff_ne_none.2 fine.config
  simp only [nodeErrors, given, List.mem_append, Bool.false_eq_true, if_false] at mem
  rcases mem with ((mem | mem) | mem) | mem
  · exact absurd (mem_addErrorIf mem).1 fine.id
  · have := (mem_addErrorIf mem).1.2
    rw [new] at this
    cases this
  · have := (mem_addErrorIf mem).1
    rw [fine.type] at this
    cases this
  · exact mem_addErrorOf mem

theorem scanNodes_ingested {nodes : List WorkflowNode} (index : Nat) {s : NodeScan} (each : ∀ n ∈ nodes, NodeIngested n)
    (distinct : (nodes.map (·.id)).Nodup) (new : ∀ n ∈ nodes, s.nodes.lookup n.id = none) {e : WorkflowValidationError}
    (mem : e ∈ (scanNodes uuidParse nodes index s).errors) : e ∈ s.errors ∨ e.code = "invalid_node_config" := by
  induction nodes generalizing index s with
  | nil => exact Or.inl mem
  | cons n rest ih =>
    have fine := each n List.mem_cons_self
    have unseen := new n List.mem_cons_self
    obtain ⟨fresh, distinct⟩ := List.nodup_cons.1 distinct
    have step : (scanNode uuidParse s index n).nodes = s.nodes ++ [(n.id, n)] := by
      simp [scanNode, fine.id, unseen]
    rcases ih (index + 1) (fun m hm => each m (List.mem_cons_of_mem _ hm)) distinct (fun m hm => by
      rw [step, lookup_append_single]
      exact ⟨new m (List.mem_cons_of_mem _ hm), fun same => fresh (List.mem_map.2 ⟨m, hm, same⟩)⟩) mem with mem | config
    · exact (List.mem_append.1 mem).imp_right (fine.errors unseen)
    · exact Or.inr config

/-- Of a stored edge between registered nodes, the shape of the graph, the condition or the branch can be wrong. -/
theorem EdgeIngested.errors {ids : List String} {edge : WorkflowEdge} (fine : EdgeIngested ids edge)
    {nodes : List (String × WorkflowNode)} (registered : ∀ id ∈ ids, nodes.lookup id ≠ none) {edgeIDs edgePairs : List String}
    (new : edge.id ∉ edgeIDs) {index : Nat} {e : WorkflowValidationError}
    (mem : e ∈ edgeErrors nodes edgeIDs edgePairs index edge) :
    e.code ∈ ["self_loop", "duplicate_edge", "invalid_condition_branch"] ∨
      e = ⟨"unsupported_config_shape", "edge condition must be an object or null", edgePath index ++ ".condition"⟩ := by
  simp only [edgeErrors, List.mem_append] at mem
  rcases mem with ((((((mem | mem) | mem) | mem) | mem) | mem) | mem) | mem
  · exact absurd (mem_addErrorIf mem).1 fine.id
  · exact absurd (mem_addErrorIf mem).1.2 new
  · exact absurd (mem_addErrorIf mem).1 (registered _ fine.source)
  · exact absurd (mem_addErrorIf mem).1 (registered _ fine.target)
  · exact Or.inl (by simp [(mem_addErrorIf mem).2])
  · exact Or.inl (by simp [(mem_addErrorIf mem).2])
  · exact Or.inr (mem_addErrorIf mem).2
  · exact Or.inl (by simp [mem_addErrorOf mem])

theorem scanEdges_ingested {ids : List String} {nodes : List (String × WorkflowNode)}
    (registered : ∀ id ∈ ids, nodes.lookup id ≠ none) {edges : List WorkflowEdge} (index : Nat) {s : EdgeScan}
    (each : ∀ edge ∈ edges, EdgeIngested ids edge) (distinct : (edges.map (·.id)).Nodup) (new : ∀ edge ∈ edges, edge.id ∉ s.edgeIDs)
    {e : WorkflowValidationError} (mem : e ∈ (scanEdges nodes edges index s).errors) :
    e ∈ s.errors ∨ e.code ∈ ["self_loop", "duplicate_edge", "invalid_condition_branch"] ∨
      ∃ i, e = ⟨"unsupported_config_shape", "edge condition must be an object or null", edgePath i ++ ".condition"⟩ := by
  induction edges generalizing index s with
  | nil => exact Or.inl mem
  | cons edge rest ih =>
    have fine := each edge List.mem_cons_self
    have unseen := new edge List.mem_cons_self
    obtain ⟨fresh, distinct⟩ := List.nodup_cons.1 distinct
    have step : (scanEdge nodes s index edge).edgeIDs = s.edgeIDs ++ [edge.id] := by
      simp [scanEdge, fine.id, unseen]
    rcases ih (index + 1) (fun f hf => each f (List.mem_cons_of_mem _ hf)) distinct (fun f hf => by
      rw [step, List.mem_append, List.mem_singleton, not_or]
      exact ⟨new f (List.mem_cons_of_mem _ hf), fun same => fresh (List.mem_map.2 ⟨f, hf, same⟩)⟩) mem with mem | later
    · exact (List.mem_append.1 mem).imp_right fun mem => (fine.errors registered unseen mem).imp_right fun shape => ⟨index, shape⟩
    · exact Or.inr later

theorem mem_registeredErrors {nodeIndexes : List (String × Nat)} {errors : Nat → WorkflowNode → List WorkflowValidationError}
    {nodes : List WorkflowNode} {index : Nat} {e : WorkflowValidationError}
    (mem : e ∈ registeredErrors nodeIndexes errors nodes index) : ∃ i n, e ∈ errors i n := by
  induction nodes generalizing index with
  | nil => cases mem
  | cons node rest ih =>
    rcases List.mem_append.1 mem with mem | mem
    · split at mem
      · cases mem
      · exact ⟨index, node, mem⟩
    · exact ih mem

/-- What keeps a stored definition from being published: the shape of the graph, a configuration or a branch. -/
def publishingCodes : List String :=
  ["invalid_node_config", "missing_trigger", "missing_action", "self_loop", "duplicate_edge", "invalid_condition_branch",
    "trigger_has_incoming_edge", "orphan_node", "unreachable_node", "cycle_detected"]

/-- What storing a definition has checked already. -/
def ingestionCodes : List String :=
  ["nodes_required", "edges_required", "node_id_required", "duplicate_node_id", "unsupported_node_type", "edge_id_required",
    "duplicate_edge_id", "invalid_edge_reference"]

theorem Ingested.errors {d : WorkflowDefinition} (fine : Ingested d) {e : WorkflowValidationError}
    (mem : e ∈ (validateWorkflowDefinition uuidParse d).errors) : e.code ∈ publishingCodes ∨
      ∃ i, e = ⟨"unsupported_config_shape", "edge condition must be an object or null", edgePath i ++ ".condition"⟩ := by
  have maps : (scanNodes uuidParse d.nodeList 0 ⟨[], [], [], 0, 0⟩).nodes = [] ++ d.nodeList.map fun n => (n.id, n) :=
    (scanNodes_maps 0 _ (fun n hn => (fine.nodes n hn).id) fine.nodeIDs (fun _ _ => rfl)).1
  have registered : ∀ id ∈ d.nodeList.map (·.id),
      (scanNodes uuidParse d.nodeList 0 ⟨[], [], [], 0, 0⟩).nodes.lookup id ≠ none := by
    intro id hid
    obtain ⟨n, hn, rfl⟩ := List.mem_map.1 hid
    rw [maps, List.nil_append, Ne, List.lookup_eq_none_iff]
    simp only [List.mem_map, forall_exists_index, and_imp, forall_apply_eq_imp_iff₂]
    exact fun other => by simpa using other n hn
  simp only [validateWorkflowDefinition, List.mem_append] at mem
  rcases mem with (((((((mem | mem) | mem) | mem) | mem) | mem) | mem) | mem) | mem
  · exact absurd (mem_addErrorIf mem).1 fine.nodesGiven
  · exact absurd (mem_addErrorIf mem).1 fine.edgesGiven
  · rcases scanNodes_ingested 0 fine.nodes fine.nodeIDs (fun _ _ => rfl) mem with mem | config
    · cases mem
    · exact Or.inl (by simp [config, publishingCodes])
  · exact Or.inl (by simp [(mem_addErrorIf mem).2, publishingCodes])
  · exact Or.inl (by simp [(mem_addErrorIf mem).2, publishingCodes])
  · rcases scanEdges_ingested registered 0 fine.edges fine.edgeIDs (fun _ _ => List.not_mem_nil) mem with mem | code | shape
    · cases mem
    · refine Or.inl ?_
      simp only [List.mem_cons, List.not_mem_nil, or_false] at code
      rcases code with code | code | code <;> simp [code, publishingCodes]
    · exact Or.inr shape
  · obtain ⟨i, n, mem⟩ := mem_registeredErrors mem
    rcases List.mem_append.1 mem with mem | mem <;> exact Or.inl (by simp [(mem_addErrorIf mem).2, publishingCodes])
  · obtain ⟨i, n, mem⟩ := mem_registeredErrors mem
    exact Or.inl (by simp [(mem_addErrorIf mem).2, publishingCodes])
  · exact Or.inl (by simp [(mem_addErrorIf mem).2, publishingCodes])

/-- Publishing finds nothing wrong in a stored definition that storing it has checked. -/
theorem ingestion_agrees (h : Host) (raw : RawMessage) (uuidParse : String → Option UUID) {d : WorkflowDefinition}
    (parsed : parseWorkflowDefinition h raw = some d) {e : WorkflowValidationError}
    (mem : e ∈ (validateWorkflowDefinition uuidParse d).errors) :
    e.code ∉ ingestionCodes ∧ (e.code ∈ publishingCodes ∨
      ∃ i, e = ⟨"unsupported_config_shape", "edge condition must be an object or null", edgePath i ++ ".condition"⟩) := by
  refine ⟨?_, (parseWorkflowDefinition_ingested parsed).errors mem⟩
  rcases (parseWorkflowDefinition_ingested parsed).errors mem with code | ⟨i, rfl⟩
  · have disjoint : ∀ code ∈ publishingCodes, code ∉ ingestionCodes := by decide
    exact disjoint _ code
  · change "unsupported_config_shape" ∉ ingestionCodes
    decide

end

/-- A host that reads one node, on a cycle of one edge whose condition is not an object. -/
def loopHost : Host :=
  { sampleHost with
    decodeDefinition := fun _ =>
      some ⟨some [⟨" a ", .delay, "wait", some []⟩], some [⟨"e", "a", " a", .json (.bool true)⟩]⟩ }

def loopDraft : WorkflowDefinition :=
  ⟨some [⟨"a", .delay, "wait", some []⟩], some [⟨"e", "a", "a", .json (.bool true)⟩]⟩

def loopError : WorkflowValidationError :=
  ⟨"unsupported_config_shape", "edge condition must be an object or null", edgePath 0 ++ ".condition"⟩

theorem loopDraft_condition : parseWorkflowDefinition loopHost (.json (.obj [])) = some loopDraft ∧
    loopError ∈ (validateWorkflowDefinition loopHost.uuidParse loopDraft).errors ∧ loopError.code ∉ ingestionCodes :=
  ⟨by decide +kernel, by decide +kernel,
    (ingestion_agrees loopHost (.json (.obj [])) loopHost.uuidParse (d := loopDraft) (by decide +kernel)
      (e := loopError) (by decide +kernel)).1⟩

end Windylane
