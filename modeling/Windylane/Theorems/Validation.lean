import Windylane.Validation

/-! What the publish check accepts: the rules of a publishable graph, in their own words, and that the check
    accepts the definitions that keep them. -/

namespace Windylane

/-- An edge of the definition leads from one node id to another. -/
def WorkflowDefinition.Linked (d : WorkflowDefinition) (a b : String) : Prop :=
  ∃ e ∈ d.edgeList, e.source = a ∧ e.target = b

/-- The parser of the node's type accepts its configuration; a webhook's endpoint is a UUID besides, and the
    configuration of a trigger is free. -/
def ConfigAccepted (uuidParse : String → Option UUID) (node : WorkflowNode) : Prop :=
  match node.type with
  | .task => ∃ c, parseWorkflowTaskConfig node.config = .ok c
  | .webhook => ∃ c, parseWorkflowWebhookConfig node.config = .ok c ∧ (uuidParse c.endpointID).isSome
  | .delay => ∃ c, parseWorkflowDelayConfig node.config = .ok c
  | .condition => ∃ c, parseWorkflowConditionConfig node.config = .ok c
  | .trigger => True
  | .other _ => True

/-- Null or absent, or an object. -/
def ConditionShape : RawMessage → Prop
  | .empty => True
  | .json .null => True
  | .json (.obj _) => True
  | _ => False

/-- An edge that leaves a condition node: null or absent, or an object whose members are all called `branch`,
    without regard to case, each a boolean or null and the last a boolean. -/
def BranchShape : RawMessage → Prop
  | .empty => True
  | .json .null => True
  | .json (.obj members) =>
    (∀ m ∈ members, foldName m.1 = foldName "branch" ∧ (m.2 = .null ∨ ∃ b, m.2 = .bool b)) ∧
      ∃ last, members.getLast? = some last ∧ ∃ b, last.2 = .bool b
  | _ => False

/-- A publishable definition; `branch` is what an edge that leaves a condition node may carry. -/
structure Publishable (uuidParse : String → Option UUID) (branch : RawMessage → Prop) (d : WorkflowDefinition) :
    Prop where
  nodes : d.nodes ≠ none
  edges : d.edges ≠ none
  nodeIDs : ∀ n ∈ d.nodeList, n.id ≠ ""
  nodeIDsUnique : (d.nodeList.map (·.id)).Nodup
  edgeIDs : ∀ e ∈ d.edgeList, e.id ≠ ""
  edgeIDsUnique : (d.edgeList.map (·.id)).Nodup
  types : ∀ n ∈ d.nodeList, n.type.valid = true
  configs : ∀ n ∈ d.nodeList, n.config ≠ none ∧ ConfigAccepted uuidParse n
  trigger : ∃ n ∈ d.nodeList, n.type = .trigger
  action : ∃ n ∈ d.nodeList, n.type ≠ .trigger
  joined : ∀ e ∈ d.edgeList, (∃ n ∈ d.nodeList, n.id = e.source) ∧ (∃ n ∈ d.nodeList, n.id = e.target) ∧
    e.source ≠ e.target
  pairsUnique : (d.edgeList.map fun e => (e.source, e.target)).Nodup
  conditions : ∀ e ∈ d.edgeList, ConditionShape e.condition
  branches : ∀ e ∈ d.edgeList, (∃ n ∈ d.nodeList, n.id = e.source ∧ n.type = .condition) → branch e.condition
  triggers : ∀ n ∈ d.nodeList, n.type = .trigger → ∀ e ∈ d.edgeList, e.target ≠ n.id
  incident : ∀ n ∈ d.nodeList, ∃ e ∈ d.edgeList, e.source = n.id ∨ e.target = n.id
  reachable : ∀ n ∈ d.nodeList, n.type ≠ .trigger →
    ∃ t ∈ d.nodeList, t.type = .trigger ∧ Relation.ReflTransGen d.Linked t.id n.id
  acyclic : ∀ id, ¬ Relation.TransGen d.Linked id id

/-! ### Configurations and branches -/

@[simp] theorem addErrorIf_eq_nil {cond : Prop} [Decidable cond] {code message path : String} :
    addErrorIf cond code message path = [] ↔ ¬ cond := by
  simp [addErrorIf]

@[simp] theorem addErrorOf_eq_nil {err : Option String} {code path : String} :
    addErrorOf err code path = [] ↔ err = none := by
  simp [addErrorOf]

theorem errorOf_eq_none {τ : Type} {r : Except String τ} : errorOf r = none ↔ ∃ c, r = .ok c := by
  cases r <;> simp [errorOf]

theorem configError_eq_none {uuidParse : String → Option UUID} {node : WorkflowNode} :
    configError uuidParse node = none ↔ ConfigAccepted uuidParse node := by
  unfold configError ConfigAccepted
  cases node.type with
  | webhook =>
    cases parseWorkflowWebhookConfig node.config with
    | error e => simp
    | ok c => cases h : uuidParse c.endpointID <;> simp [h]
  | trigger => simp
  | other text => simp
  | task | delay | condition => exact errorOf_eq_none

theorem conditionMalformed_eq_false {condition : RawMessage} :
    conditionMalformed condition = false ↔ ConditionShape condition := by
  cases condition with
  | empty => simp [conditionMalformed, ConditionShape, RawMessage.isNull]
  | malformed first => simp [conditionMalformed, ConditionShape, RawMessage.isNull, RawMessage.unmarshal]
  | json value =>
    cases value <;>
      simp [conditionMalformed, ConditionShape, RawMessage.isNull, RawMessage.unmarshal, Json.normalize]

theorem fieldFor_branch {key : String} :
    fieldFor ["branch"] key = if foldName key = foldName "branch" then some "branch" else none := by
  unfold fieldFor
  by_cases hk : key = "branch"
  · subst hk; simp
  · by_cases hf : foldName key = foldName "branch"
    · simp [hk, hf]
    · simp [hk, hf, Ne.symm hf]

/-- An error met once is the answer whatever follows. -/
theorem decodeMembers_error {τ : Type} {strict : Bool} {fields : List String} {assign : τ → String → Json → Decoded τ}
    (members : List (String × Json)) (value : τ) (e : String) :
    decodeMembers strict fields assign members value (some e) = .error e := by
  induction members generalizing value with
  | nil => rfl
  | cons m rest ih =>
    obtain ⟨key, v⟩ := m
    simp only [decodeMembers]
    split
    · exact ih value
    · split
      · exact ih _
      · exact ih value

/-- Decoding members into a branch: what is left in the field is the last one read. -/
theorem decodeMembers_branch (members : List (String × Json)) (c : WorkflowBranchConfig) (b : Bool) :
    decodeMembers true ["branch"] WorkflowBranchConfig.assign members c none = .ok ⟨some b⟩ ↔
      (∀ m ∈ members, foldName m.1 = foldName "branch" ∧ (m.2 = .null ∨ ∃ b, m.2 = .bool b)) ∧
        (members.getLast?.elim (c.branch = some b) fun last => last.2 = .bool b) := by
  induction members generalizing c with
  | nil => cases c; simp [decodeMembers]
  | cons m rest ih =>
    obtain ⟨key, v⟩ := m
    simp only [decodeMembers, fieldFor_branch]
    by_cases hk : foldName key = foldName "branch"
    · rw [if_pos hk, List.getLast?_cons]
      cases v with
      | null =>
        simp only [WorkflowBranchConfig.assign, ih]
        cases rest.getLast? <;> simp [hk]
      | bool x =>
        simp only [WorkflowBranchConfig.assign, ih]
        cases rest.getLast? <;> simp [hk]
      | num _ | str _ | arr _ | obj _ =>
        simp [WorkflowBranchConfig.assign, decodeMembers_error]
    · rw [if_neg hk]
      simp [hk, decodeMembers_error]

/-- What `parseWorkflowBranch` accepts, among the conditions an edge may have at all. -/
theorem parseWorkflowBranch_ok {condition : RawMessage} (h : ConditionShape condition) :
    (∃ b, parseWorkflowBranch condition = .ok b) ↔ BranchShape condition := by
  cases condition with
  | empty => simp [parseWorkflowBranch, BranchShape, RawMessage.isNull]
  | malformed first => exact h.elim
  | json value =>
    cases value with
    | null => simp [parseWorkflowBranch, BranchShape, RawMessage.isNull]
    | bool _ | num _ | str _ | arr _ => exact h.elim
    | obj members =>
      have key : (∃ b, parseWorkflowBranch (.json (.obj members)) = .ok b) ↔
          ∃ b, decodeMembers true ["branch"] WorkflowBranchConfig.assign members ⟨none⟩ none = .ok ⟨some b⟩ := by
        simp only [parseWorkflowBranch, RawMessage.isNull, RawMessage.decode]
        cases hd : decodeMembers true ["branch"] WorkflowBranchConfig.assign members ⟨none⟩ none with
        | error e => simp
        | ok c => obtain ⟨_ | b⟩ := c <;> simp
      rw [key]
      simp only [decodeMembers_branch, BranchShape]
      cases members.getLast? with
      | none => simp
      | some last => simp

/-! ### Assembling the maps -/

section

variable {uuidParse : String → Option UUID}

/-- A node that raises no error of its own. -/
structure NodeFine (uuidParse : String → Option UUID) (n : WorkflowNode) : Prop where
  id : n.id ≠ ""
  type : n.type.valid = true
  config : n.config ≠ none
  parsed : ConfigAccepted uuidParse n

theorem nodeErrors_eq_nil {nodes : List (String × WorkflowNode)} {index : Nat} {n : WorkflowNode} :
    nodeErrors uuidParse nodes index n = [] ↔ NodeFine uuidParse n ∧ nodes.lookup n.id = none := by
  have hcfg : (if n.config.isNone then [(⟨"unsupported_config_shape", "node config must be an object",
      nodePath index ++ ".config"⟩ : WorkflowValidationError)]
      else addErrorOf (configError uuidParse n) "invalid_node_config" (nodePath index ++ ".config")) = [] ↔
      n.config ≠ none ∧ ConfigAccepted uuidParse n := by
    rw [← configError_eq_none]
    cases n.config <;> simp
  simp only [nodeErrors, List.append_eq_nil_iff, addErrorIf_eq_nil, hcfg]
  constructor
  · rintro ⟨⟨⟨h1, h2⟩, h3⟩, h4, h5⟩
    exact ⟨⟨h1, by simpa using h3, h4, h5⟩, Option.not_isSome_iff_eq_none.1 fun h => h2 ⟨h1, h⟩⟩
  · rintro ⟨h, h2⟩
    exact ⟨⟨⟨h.id, by simp [h2]⟩, by simp [h.type]⟩, h.config, h.parsed⟩

theorem lookup_append_single {β : Type} {m : List (String × β)} {key x : String} {value : β} :
    (m ++ [(key, value)]).lookup x = none ↔ m.lookup x = none ∧ x ≠ key := by
  rw [List.lookup_append]
  by_cases h : x = key
  · subst h; simp
  · have : (x == key) = false := by simpa using h
    simp [List.lookup_cons, this, h]

/-- The loop over the nodes adds no error exactly when every node is fine and no id repeats. -/
theorem scanNodes_errors {nodes : List WorkflowNode} {index : Nat} {s : NodeScan} :
    (scanNodes uuidParse nodes index s).errors = [] ↔ s.errors = [] ∧ (∀ n ∈ nodes, NodeFine uuidParse n) ∧
      (nodes.map (·.id)).Nodup ∧ ∀ n ∈ nodes, s.nodes.lookup n.id = none := by
  induction nodes generalizing index s with
  | nil => simp [scanNodes]
  | cons n rest ih =>
    simp only [scanNodes, ih, List.map_cons, List.nodup_cons, List.forall_mem_cons]
    constructor
    · rintro ⟨herr, hfine, hnodup, hnew⟩
      obtain ⟨herr, hn⟩ := List.append_eq_nil_iff.1 herr
      obtain ⟨hn, hnone⟩ := nodeErrors_eq_nil.1 hn
      simp only [scanNode, hn.id, hnone, Option.isSome_none, Bool.false_eq_true, or_self, if_false,
        lookup_append_single] at hnew
      refine ⟨herr, ⟨hn, hfine⟩, ⟨?_, hnodup⟩, hnone, fun m hm => (hnew m hm).1⟩
      intro hmem
      obtain ⟨m, hm, he⟩ := List.mem_map.1 hmem
      exact (hnew m hm).2 he
    · rintro ⟨herr, ⟨hn, hfine⟩, ⟨hfresh, hnodup⟩, hnone, hnew⟩
      refine ⟨?_, hfine, hnodup, ?_⟩
      · exact List.append_eq_nil_iff.2 ⟨herr, nodeErrors_eq_nil.2 ⟨hn, hnone⟩⟩
      · intro m hm
        simp only [scanNode, hn.id, hnone, Option.isSome_none, Bool.false_eq_true, or_self, if_false,
          lookup_append_single]
        exact ⟨hnew m hm, fun he => hfresh (he ▸ List.mem_map_of_mem hm)⟩

/-- When ids are distinct and not empty, the loop registers every node under its index. -/
theorem scanNodes_maps {nodes : List WorkflowNode} (index : Nat) (s : NodeScan) (hid : ∀ n ∈ nodes, n.id ≠ "")
    (hnodup : (nodes.map (·.id)).Nodup) (hnew : ∀ n ∈ nodes, s.nodes.lookup n.id = none) :
    (scanNodes uuidParse nodes index s).nodes = s.nodes ++ nodes.map (fun n => (n.id, n)) ∧
    (scanNodes uuidParse nodes index s).nodeIndexes =
      s.nodeIndexes ++ (nodes.zipIdx index).map fun p => (p.1.id, p.2) := by
  induction nodes generalizing index s with
  | nil => simp [scanNodes]
  | cons n rest ih =>
    have hn : n.id ≠ "" := hid n List.mem_cons_self
    have hnone : s.nodes.lookup n.id = none := hnew n List.mem_cons_self
    obtain ⟨hfresh, hnodup⟩ := List.nodup_cons.1 hnodup
    have hstep : (scanNode uuidParse s index n).nodes = s.nodes ++ [(n.id, n)] ∧
        (scanNode uuidParse s index n).nodeIndexes = s.nodeIndexes ++ [(n.id, index)] := by
      simp [scanNode, hn, hnone]
    obtain ⟨h1, h2⟩ := ih (index + 1) (scanNode uuidParse s index n)
      (fun m hm => hid m (List.mem_cons_of_mem _ hm)) hnodup (by
        intro m hm
        rw [hstep.1, lookup_append_single]
        exact ⟨hnew m (List.mem_cons_of_mem _ hm), fun he => hfresh (List.mem_map.2 ⟨m, hm, he⟩)⟩)
    simp only [scanNodes, h1, h2, hstep]
    exact ⟨by simp, by simp⟩

variable (uuidParse) in
theorem scanNodes_counts (nodes : List WorkflowNode) (index : Nat) (s : NodeScan)
    (htype : ∀ n ∈ nodes, n.type.valid = true) :
    (scanNodes uuidParse nodes index s).triggerCount = s.triggerCount + nodes.countP (fun n => n.type = .trigger) ∧
    (scanNodes uuidParse nodes index s).actionCount = s.actionCount + nodes.countP (fun n => n.type ≠ .trigger) := by
  induction nodes generalizing index s with
  | nil => simp [scanNodes]
  | cons n rest ih =>
    obtain ⟨h1, h2⟩ := ih (index + 1) (scanNode uuidParse s index n) (fun m hm => htype m (List.mem_cons_of_mem _ hm))
    have hn := htype n List.mem_cons_self
    simp only [scanNodes]
    rw [h1, h2, List.countP_cons, List.countP_cons]
    simp only [scanNode]
    cases ht : n.type with
    | other text => rw [ht] at hn; cases hn
    | trigger => simp; omega
    | task | webhook | delay | condition => simp; omega

end

/-- An edge that raises no error of its own. -/
structure EdgeFine (nodes : List (String × WorkflowNode)) (e : WorkflowEdge) : Prop where
  id : e.id ≠ ""
  source : nodes.lookup e.source ≠ none
  target : nodes.lookup e.target ≠ none
  proper : ¬ (e.source ≠ "" ∧ e.source = e.target)
  condition : ConditionShape e.condition
  branch : branchError nodes e = none

theorem edgeErrors_eq_nil {nodes : List (String × WorkflowNode)} {edgeIDs edgePairs : List String} {index : Nat}
    {e : WorkflowEdge} : edgeErrors nodes edgeIDs edgePairs index e = [] ↔
      EdgeFine nodes e ∧ e.id ∉ edgeIDs ∧ edgePair e ∉ edgePairs := by
  simp only [edgeErrors, List.append_eq_nil_iff, addErrorIf_eq_nil, addErrorOf_eq_nil, Bool.not_eq_true,
    conditionMalformed_eq_false]
  constructor
  · rintro ⟨⟨⟨⟨⟨⟨⟨h1, h2⟩, h3⟩, h4⟩, h5⟩, h6⟩, h7⟩, h8⟩
    exact ⟨⟨h1, h3, h4, h5, h7, h8⟩, fun h => h2 ⟨h1, h⟩, h6⟩
  · rintro ⟨h, hid, hpair⟩
    exact ⟨⟨⟨⟨⟨⟨⟨h.id, fun h => hid h.2⟩, h.source⟩, h.target⟩, h.proper⟩, hpair⟩, h.condition⟩, h.branch⟩

/-- The loop over the edges adds no error exactly when every edge is fine and no id and no pair repeats. -/
theorem scanEdges_errors {nodes : List (String × WorkflowNode)} {edges : List WorkflowEdge} {index : Nat}
    {s : EdgeScan} : (scanEdges nodes edges index s).errors = [] ↔
      s.errors = [] ∧ (∀ e ∈ edges, EdgeFine nodes e) ∧
      ((edges.map (·.id)).Nodup ∧ ∀ e ∈ edges, e.id ∉ s.edgeIDs) ∧
      (edges.map edgePair).Nodup ∧ ∀ e ∈ edges, edgePair e ∉ s.edgePairs := by
  induction edges generalizing index s with
  | nil => simp [scanEdges]
  | cons e rest ih =>
    simp only [scanEdges, ih, List.map_cons, List.nodup_cons, List.forall_mem_cons]
    constructor
    · rintro ⟨herr, hfine, ⟨hids, hidNew⟩, hpairs, hpairNew⟩
      obtain ⟨herr, he⟩ := List.append_eq_nil_iff.1 herr
      obtain ⟨he, hid, hpair⟩ := edgeErrors_eq_nil.1 he
      simp only [scanEdge, he.id, hid, hpair, or_self, if_false, List.mem_append, List.mem_singleton,
        not_or] at hidNew hpairNew
      refine ⟨herr, ⟨he, hfine⟩, ⟨⟨?_, hids⟩, hid, fun f hf => (hidNew f hf).1⟩, ⟨?_, hpairs⟩, hpair,
        fun f hf => (hpairNew f hf).1⟩
      · intro hmem
        obtain ⟨f, hf, heq⟩ := List.mem_map.1 hmem
        exact (hidNew f hf).2 heq
      · intro hmem
        obtain ⟨f, hf, heq⟩ := List.mem_map.1 hmem
        exact (hpairNew f hf).2 heq
    · rintro ⟨herr, ⟨he, hfine⟩, ⟨⟨hidFresh, hids⟩, hid, hidNew⟩, ⟨hpairFresh, hpairs⟩, hpair, hpairNew⟩
      simp only [scanEdge, he.id, hid, hpair, or_self, if_false, List.mem_append, List.mem_singleton, not_or]
      refine ⟨?_, hfine, ⟨hids, fun f hf => ⟨hidNew f hf, fun heq => ?_⟩⟩, hpairs,
        fun f hf => ⟨hpairNew f hf, fun heq => ?_⟩⟩
      · exact List.append_eq_nil_iff.2 ⟨herr, edgeErrors_eq_nil.2 ⟨he, hid, hpair⟩⟩
      · exact hidFresh (List.mem_map.2 ⟨f, hf, heq⟩)
      · exact hpairFresh (List.mem_map.2 ⟨f, hf, heq⟩)

theorem update_succ (m : String → Nat) (key x : String) :
    Function.update m key (m key + 1) x = m x + if key = x then 1 else 0 := by
  by_cases h : key = x
  · subst h; simp
  · simp [h, Function.update_of_ne (Ne.symm h)]

/-- When every edge joins registered nodes, the maps of the loop are those of the whole edge list. -/
theorem scanEdges_graph {nodes : List (String × WorkflowNode)} {edges : List WorkflowEdge} (index : Nat)
    (s : EdgeScan) (hjoin : ∀ e ∈ edges, nodes.lookup e.source ≠ none ∧ nodes.lookup e.target ≠ none) (x : String) :
    (scanEdges nodes edges index s).adjacency x =
      s.adjacency x ++ (edges.filter fun e => e.source = x).map (·.target) ∧
    (scanEdges nodes edges index s).incoming x = s.incoming x + edges.countP (fun e => e.target = x) ∧
    (scanEdges nodes edges index s).degree x =
      s.degree x + edges.countP (fun e => e.source = x) + edges.countP (fun e => e.target = x) := by
  induction edges generalizing index s with
  | nil => simp [scanEdges]
  | cons e rest ih =>
    obtain ⟨h1, h2⟩ := hjoin e List.mem_cons_self
    have hj : ((nodes.lookup e.source).isSome && (nodes.lookup e.target).isSome) = true := by
      simp [Option.isSome_iff_ne_none, h1, h2]
    obtain ⟨hadj, hin, hdeg⟩ := ih (index + 1) (scanEdge nodes s index e)
      (fun f hf => hjoin f (List.mem_cons_of_mem _ hf))
    simp only [scanEdges]
    rw [hadj, hin, hdeg]
    simp only [scanEdge, hj, if_true, List.filter_cons, List.countP_cons, decide_eq_true_eq]
    refine ⟨?_, ?_, ?_⟩
    · by_cases hs : e.source = x
      · subst hs; simp
      · simp [hs, Function.update_of_ne (Ne.symm hs)]
    · rw [update_succ]; omega
    · rw [update_succ, update_succ]; omega

/-! ### The graph the check searches -/

section

variable {nodes : List WorkflowNode}

theorem lookup_registered {n : WorkflowNode} (hnodup : (nodes.map (·.id)).Nodup) (hn : n ∈ nodes) :
    (nodes.map fun n => (n.id, n)).lookup n.id = some n := by
  induction nodes with
  | nil => cases hn
  | cons m rest ih =>
    obtain ⟨hfresh, hnodup⟩ := List.nodup_cons.1 hnodup
    rcases List.mem_cons.1 hn with rfl | hn
    · simp
    · have hne : (n.id == m.id) = false := by
        simp only [beq_eq_false_iff_ne]
        exact fun h => hfresh (List.mem_map.2 ⟨n, hn, h⟩)
      simp only [List.map_cons, List.lookup_cons, hne]
      exact ih hnodup hn

theorem exists_of_lookup {x : String} {n : WorkflowNode} (h : (nodes.map fun n => (n.id, n)).lookup x = some n) :
    n ∈ nodes ∧ n.id = x := by
  induction nodes with
  | nil => cases h
  | cons m rest ih =>
    by_cases hx : x = m.id
    · subst hx
      simp only [List.map_cons, List.lookup_cons, beq_self_eq_true, Option.some.injEq] at h
      subst h
      exact ⟨List.mem_cons_self, rfl⟩
    · have hne : (x == m.id) = false := by simpa using hx
      simp only [List.map_cons, List.lookup_cons, hne] at h
      exact ⟨List.mem_cons_of_mem _ (ih h).1, (ih h).2⟩

theorem indexOf_registered (hnodup : (nodes.map (·.id)).Nodup) (k : Nat) :
    ∀ p ∈ nodes.zipIdx k, indexOf ((nodes.zipIdx k).map fun p => (p.1.id, p.2)) p.1.id = p.2 := by
  induction nodes generalizing k with
  | nil => intro p hp; cases hp
  | cons n rest ih =>
    obtain ⟨hfresh, hnodup⟩ := List.nodup_cons.1 hnodup
    intro p hp
    rw [List.zipIdx_cons] at hp ⊢
    rcases List.mem_cons.1 hp with rfl | hp
    · simp [indexOf]
    · have hne : (p.1.id == n.id) = false := by
        simp only [beq_eq_false_iff_ne]
        intro h
        exact hfresh (List.mem_map.2 ⟨p.1, List.fst_mem_of_mem_zipIdx hp, h⟩)
      simp only [indexOf, List.map_cons, List.lookup_cons, hne]
      exact ih hnodup (k + 1) p hp

/-- The later loops skip no node when every id is registered under its own index. -/
theorem registeredErrors_eq_nil {indexes : List (String × Nat)}
    {errors : Nat → WorkflowNode → List WorkflowValidationError} {P : WorkflowNode → Prop} {k : Nat}
    (hidx : ∀ p ∈ nodes.zipIdx k, indexOf indexes p.1.id = p.2) (herr : ∀ i n, errors i n = [] ↔ P n) :
    registeredErrors indexes errors nodes k = [] ↔ ∀ n ∈ nodes, P n := by
  induction nodes generalizing k with
  | nil => simp [registeredErrors]
  | cons n rest ih =>
    rw [List.zipIdx_cons, List.forall_mem_cons] at hidx
    simp only [registeredErrors, hidx.1, ne_eq, not_true_eq_false, if_false, List.append_eq_nil_iff, herr,
      ih hidx.2, List.forall_mem_cons]

theorem triggerIDs_eq {indexes : List (String × Nat)} {k : Nat}
    (hidx : ∀ p ∈ nodes.zipIdx k, indexOf indexes p.1.id = p.2) :
    triggerIDs indexes nodes k = (nodes.filter fun n => n.type = .trigger).map (·.id) := by
  induction nodes generalizing k with
  | nil => rfl
  | cons n rest ih =>
    rw [List.zipIdx_cons, List.forall_mem_cons] at hidx
    simp only [triggerIDs, hidx.1, ne_eq, not_true_eq_false, if_false, ih hidx.2, List.filter_cons]
    by_cases ht : n.type = .trigger <;> simp [ht]

end

/-- The maps of the two loops say what the definition says. -/
structure Maps (d : WorkflowDefinition) (s : NodeScan) (e : EdgeScan) : Prop where
  found : ∀ x n, s.nodes.lookup x = some n ↔ n ∈ d.nodeList ∧ n.id = x
  indexes : ∀ p ∈ d.nodeList.zipIdx 0, indexOf s.nodeIndexes p.1.id = p.2
  adjacency : ∀ x y, y ∈ e.adjacency x ↔ d.Linked x y
  incoming : ∀ x, e.incoming x = d.edgeList.countP fun f => f.target = x
  degree : ∀ x, e.degree x = d.edgeList.countP (fun f => f.source = x) + d.edgeList.countP fun f => f.target = x

section

variable {uuidParse : String → Option UUID} {d : WorkflowDefinition}

theorem scanned_found (hid : ∀ n ∈ d.nodeList, n.id ≠ "") (hnodup : (d.nodeList.map (·.id)).Nodup)
    (x : String) (n : WorkflowNode) :
    (scanNodes uuidParse d.nodeList 0 ⟨[], [], [], 0, 0⟩).nodes.lookup x = some n ↔ n ∈ d.nodeList ∧ n.id = x := by
  rw [(scanNodes_maps 0 ⟨[], [], [], 0, 0⟩ hid hnodup fun _ _ => rfl).1, List.nil_append]
  refine ⟨exists_of_lookup, ?_⟩
  rintro ⟨hn, rfl⟩
  exact lookup_registered hnodup hn

variable (uuidParse) in
theorem scanned_known (hid : ∀ n ∈ d.nodeList, n.id ≠ "") (hnodup : (d.nodeList.map (·.id)).Nodup) (x : String) :
    (scanNodes uuidParse d.nodeList 0 ⟨[], [], [], 0, 0⟩).nodes.lookup x ≠ none ↔ ∃ n ∈ d.nodeList, n.id = x := by
  rw [Option.ne_none_iff_exists']
  exact exists_congr fun n => scanned_found hid hnodup x n

variable (uuidParse) in
theorem maps_of_joined (hid : ∀ n ∈ d.nodeList, n.id ≠ "") (hnodup : (d.nodeList.map (·.id)).Nodup)
    (hjoin : ∀ e ∈ d.edgeList, (∃ n ∈ d.nodeList, n.id = e.source) ∧ ∃ n ∈ d.nodeList, n.id = e.target) :
    Maps d (scanNodes uuidParse d.nodeList 0 ⟨[], [], [], 0, 0⟩)
      (scanEdges (scanNodes uuidParse d.nodeList 0 ⟨[], [], [], 0, 0⟩).nodes d.edgeList 0
        ⟨[], [], [], fun _ => [], fun _ => 0, fun _ => 0⟩) := by
  have graph := scanEdges_graph 0 ⟨[], [], [], fun _ => [], fun _ => 0, fun _ => 0⟩ fun e he =>
    ⟨(scanned_known uuidParse hid hnodup _).2 (hjoin e he).1,
      (scanned_known uuidParse hid hnodup _).2 (hjoin e he).2⟩
  refine ⟨scanned_found hid hnodup, ?_, ?_, fun x => by simpa using (graph x).2.1,
    fun x => by simpa using (graph x).2.2⟩
  · rw [(scanNodes_maps 0 ⟨[], [], [], 0, 0⟩ hid hnodup fun _ _ => rfl).2, List.nil_append]
    exact indexOf_registered hnodup 0
  · intro x y
    rw [(graph x).1]
    simp [WorkflowDefinition.Linked, and_assoc]

namespace Maps

variable {s : NodeScan} {e : EdgeScan} (m : Maps d s e)

include m

theorem branchError_eq_none (f : WorkflowEdge) (hf : ConditionShape f.condition) :
    branchError s.nodes f = none ↔ ((∃ n ∈ d.nodeList, n.id = f.source ∧ n.type = .condition) → BranchShape f.condition) := by
  rw [← parseWorkflowBranch_ok hf, ← errorOf_eq_none]
  unfold branchError
  cases hl : s.nodes.lookup f.source with
  | none =>
    refine ⟨fun _ ⟨n, hn, hid, _⟩ => ?_, fun _ => rfl⟩
    rw [(m.found f.source n).2 ⟨hn, hid⟩] at hl
    cases hl
  | some source =>
    obtain ⟨hmem, hid⟩ := (m.found f.source source).1 hl
    by_cases ht : source.type = .condition
    · simp only [ht, if_true]
      exact ⟨fun h _ => h, fun h => h ⟨source, hmem, hid, ht⟩⟩
    · simp only [ht, if_false]
      refine ⟨fun _ ⟨n, hn, hid', ht'⟩ => ?_, fun _ => trivial⟩
      have : some n = some source := (m.found f.source n).2 ⟨hn, hid'⟩ ▸ hl
      exact absurd (Option.some.inj this ▸ ht') ht

theorem edge_iff (a b : String) : Graph.Edge e.adjacency a b ↔ d.Linked a b := m.adjacency a b

theorem adjacency_subset
    (hjoin : ∀ f ∈ d.edgeList, (∃ n ∈ d.nodeList, n.id = f.source) ∧ ∃ n ∈ d.nodeList, n.id = f.target)
    (a : String) : e.adjacency a ⊆ d.nodeList.map (·.id) := by
  intro b hb
  obtain ⟨f, hf, -, rfl⟩ := (m.adjacency a b).1 hb
  exact List.mem_map.2 (hjoin f hf).2

theorem mem_reachable (hnodup : (d.nodeList.map (·.id)).Nodup)
    (hjoin : ∀ f ∈ d.edgeList, (∃ n ∈ d.nodeList, n.id = f.source) ∧ ∃ n ∈ d.nodeList, n.id = f.target)
    (x : String) :
    x ∈ Graph.bfs e.adjacency d.nodeList.length (triggerIDs s.nodeIndexes d.nodeList 0)
        (triggerIDs s.nodeIndexes d.nodeList 0) ↔
      ∃ t ∈ d.nodeList, t.type = .trigger ∧ Relation.ReflTransGen d.Linked t.id x := by
  have hsub : ((d.nodeList.filter fun n => n.type = .trigger).map (·.id)).Sublist (d.nodeList.map (·.id)) :=
    List.filter_sublist.map _
  have hrel : Graph.Edge e.adjacency = d.Linked := funext₂ fun a b => propext (m.edge_iff a b)
  rw [triggerIDs_eq m.indexes, Graph.mem_bfs (m.adjacency_subset hjoin) hsub.subset (hnodup.sublist hsub)
    (by simp), hrel]
  simp [and_assoc]

theorem cycle_iff
    (hjoin : ∀ f ∈ d.edgeList, (∃ n ∈ d.nodeList, n.id = f.source) ∧ ∃ n ∈ d.nodeList, n.id = f.target) :
    (Graph.search e.adjacency d.nodeList.length (d.nodeList.map (·.id)) ⟨fun _ => .unvisited, false⟩).cycle = true ↔
      ∃ id, Relation.TransGen d.Linked id id := by
  have hrel : Graph.Edge e.adjacency = d.Linked := funext₂ fun a b => propext (m.edge_iff a b)
  rw [Graph.search_cycle (m.adjacency_subset hjoin) (by simp), Graph.Cyclic, hrel]
  intro v hv
  refine List.eq_nil_iff_forall_not_mem.2 fun b hb => ?_
  obtain ⟨f, hf, rfl, -⟩ := (m.adjacency v b).1 hb
  exact hv (List.mem_map.2 (hjoin f hf).1)

end Maps

theorem append_cons_inj {α : Type} {c : α} {a b r t : List α} (ha : c ∉ a) (hb : c ∉ b)
    (h : a ++ c :: r = b ++ c :: t) : a = b ∧ r = t := by
  induction a generalizing b with
  | nil =>
    cases b with
    | nil => exact ⟨rfl, (List.cons.inj h).2⟩
    | cons x b => exact absurd ((List.cons.inj h).1 ▸ List.mem_cons_self) hb
  | cons x a ih =>
    cases b with
    | nil => exact absurd ((List.cons.inj h).1 ▸ List.mem_cons_self) ha
    | cons y b =>
      obtain ⟨rfl, h'⟩ := List.cons.inj h
      obtain ⟨rfl, rfl⟩ := ih (fun hm => ha (List.mem_cons_of_mem _ hm)) (fun hm => hb (List.mem_cons_of_mem _ hm)) h'
      exact ⟨rfl, rfl⟩

/-- Without a NUL in the sources, the keys of two edges are equal only if their ends are. -/
theorem edgePair_inj {a b : WorkflowEdge} (ha : '\x00' ∉ a.source.toList) (hb : '\x00' ∉ b.source.toList)
    (h : edgePair a = edgePair b) : a.source = b.source ∧ a.target = b.target := by
  have h' : a.source.toList ++ '\x00' :: a.target.toList = b.source.toList ++ '\x00' :: b.target.toList := by
    simpa [edgePair] using congrArg String.toList h
  obtain ⟨hs, ht⟩ := append_cons_inj ha hb h'
  exact ⟨String.toList_injective hs, String.toList_injective ht⟩

theorem pairs_nodup {edges : List WorkflowEdge} (h : (edges.map edgePair).Nodup) :
    (edges.map fun e => (e.source, e.target)).Nodup := by
  rw [List.Nodup, List.pairwise_map] at h ⊢
  refine h.imp fun hne heq => hne ?_
  obtain ⟨hs, ht⟩ := Prod.mk.inj heq
  rw [edgePair, edgePair, hs, ht]

theorem edgePairs_nodup {edges : List WorkflowEdge} (hnul : ∀ e ∈ edges, '\x00' ∉ e.source.toList)
    (h : (edges.map fun e => (e.source, e.target)).Nodup) : (edges.map edgePair).Nodup := by
  rw [List.Nodup, List.pairwise_map] at h ⊢
  refine h.imp_of_mem fun ha hb hne heq => hne ?_
  obtain ⟨hs, ht⟩ := edgePair_inj (hnul _ ha) (hnul _ hb) heq
  exact Prod.ext hs ht

theorem incidenceErrors_eq_nil {s : NodeScan} {e : EdgeScan} (m : Maps d s e) (i : Nat) (n : WorkflowNode) :
    incidenceErrors e i n = [] ↔ (n.type = .trigger → ∀ f ∈ d.edgeList, f.target ≠ n.id) ∧
      ∃ f ∈ d.edgeList, f.source = n.id ∨ f.target = n.id := by
  simp only [incidenceErrors, List.append_eq_nil_iff, addErrorIf_eq_nil, m.incoming, m.degree]
  refine and_congr ?_ ?_
  · rw [List.countP_pos_iff]
    simp
  · rw [Nat.add_eq_zero_iff, List.countP_eq_zero, List.countP_eq_zero]
    simp only [decide_eq_true_eq, ← forall₂_and, not_forall, not_and_or, not_not, exists_prop]

theorem reachabilityErrors_eq_nil {reachable : List String} (i : Nat) (n : WorkflowNode) :
    reachabilityErrors reachable i n = [] ↔ (n.type ≠ .trigger → n.id ∈ reachable) := by
  simp [reachabilityErrors]

variable (uuidParse) in
theorem scanned_counts (htype : ∀ n ∈ d.nodeList, n.type.valid = true) :
    (¬ (scanNodes uuidParse d.nodeList 0 ⟨[], [], [], 0, 0⟩).triggerCount = 0 ↔ ∃ n ∈ d.nodeList, n.type = .trigger) ∧
    (¬ (scanNodes uuidParse d.nodeList 0 ⟨[], [], [], 0, 0⟩).actionCount = 0 ↔ ∃ n ∈ d.nodeList, n.type ≠ .trigger) := by
  obtain ⟨ht, ha⟩ := scanNodes_counts uuidParse d.nodeList 0 ⟨[], [], [], 0, 0⟩ htype
  rw [ht, ha, Nat.zero_add, Nat.zero_add, List.countP_eq_zero, List.countP_eq_zero]
  simp

/-! ### What the check accepts -/

theorem publishable_of_valid (h : (validateWorkflowDefinition uuidParse d).valid = true) :
    Publishable uuidParse BranchShape d := by
  simp only [validateWorkflowDefinition, List.isEmpty_iff, List.append_eq_nil_iff, addErrorIf_eq_nil] at h
  obtain ⟨⟨⟨⟨⟨⟨⟨⟨hnodes, hedges⟩, hscan⟩, htrigger⟩, haction⟩, hscanE⟩, hincident⟩, hreach⟩, hcycle⟩ := h
  obtain ⟨-, hfine, hnodup, -⟩ := scanNodes_errors.1 hscan
  obtain ⟨-, hefine, ⟨heids, -⟩, hpairs, -⟩ := scanEdges_errors.1 hscanE
  have hid : ∀ n ∈ d.nodeList, n.id ≠ "" := fun n hn => (hfine n hn).id
  have hjoin : ∀ e ∈ d.edgeList, (∃ n ∈ d.nodeList, n.id = e.source) ∧ ∃ n ∈ d.nodeList, n.id = e.target :=
    fun e he => ⟨(scanned_known uuidParse hid hnodup _).1 (hefine e he).source,
      (scanned_known uuidParse hid hnodup _).1 (hefine e he).target⟩
  have m := maps_of_joined uuidParse hid hnodup hjoin
  obtain ⟨ht, ha⟩ := scanned_counts uuidParse fun n hn => (hfine n hn).type
  rw [registeredErrors_eq_nil m.indexes (incidenceErrors_eq_nil m)] at hincident
  rw [registeredErrors_eq_nil m.indexes reachabilityErrors_eq_nil] at hreach
  rw [m.cycle_iff hjoin] at hcycle
  refine ⟨hnodes, hedges, hid, hnodup, fun e he => (hefine e he).id, heids, fun n hn => (hfine n hn).type,
    fun n hn => ⟨(hfine n hn).config, (hfine n hn).parsed⟩, ht.1 htrigger, ha.1 haction, ?_, pairs_nodup hpairs,
    fun e he => (hefine e he).condition, ?_, fun n hn => (hincident n hn).1, fun n hn => (hincident n hn).2, ?_, ?_⟩
  · intro e he
    obtain ⟨⟨n, hn, hs⟩, ht⟩ := hjoin e he
    refine ⟨⟨n, hn, hs⟩, ht, fun heq => (hefine e he).proper ⟨?_, heq⟩⟩
    rw [← hs]
    exact hid n hn
  · exact fun e he => (m.branchError_eq_none e (hefine e he).condition).1 (hefine e he).branch
  · exact fun n hn ht => (m.mem_reachable hnodup hjoin n.id).1 (hreach n hn ht)
  · exact fun id hc => hcycle ⟨id, hc⟩

theorem valid_of_publishable (h : Publishable uuidParse BranchShape d)
    (hnul : ∀ n ∈ d.nodeList, '\x00' ∉ n.id.toList) : (validateWorkflowDefinition uuidParse d).valid = true := by
  have hjoin : ∀ e ∈ d.edgeList, (∃ n ∈ d.nodeList, n.id = e.source) ∧ ∃ n ∈ d.nodeList, n.id = e.target :=
    fun e he => ⟨(h.joined e he).1, (h.joined e he).2.1⟩
  have m := maps_of_joined uuidParse h.nodeIDs h.nodeIDsUnique hjoin
  obtain ⟨ht, ha⟩ := scanned_counts uuidParse h.types
  simp only [validateWorkflowDefinition, List.isEmpty_iff, List.append_eq_nil_iff, addErrorIf_eq_nil]
  refine ⟨⟨⟨⟨⟨⟨⟨⟨h.nodes, h.edges⟩, ?_⟩, ht.2 h.trigger⟩, ha.2 h.action⟩, ?_⟩, ?_⟩, ?_⟩, ?_⟩
  · exact scanNodes_errors.2 ⟨rfl, fun n hn => ⟨h.nodeIDs n hn, h.types n hn, (h.configs n hn).1, (h.configs n hn).2⟩,
      h.nodeIDsUnique, fun _ _ => rfl⟩
  · refine scanEdges_errors.2 ⟨rfl, fun e he => ?_, ⟨h.edgeIDsUnique, fun _ _ => List.not_mem_nil⟩, ?_,
      fun _ _ => List.not_mem_nil⟩
    · exact ⟨h.edgeIDs e he, (scanned_known uuidParse h.nodeIDs h.nodeIDsUnique _).2 (hjoin e he).1,
        (scanned_known uuidParse h.nodeIDs h.nodeIDsUnique _).2 (hjoin e he).2, fun hp => (h.joined e he).2.2 hp.2,
        h.conditions e he, (m.branchError_eq_none e (h.conditions e he)).2 (h.branches e he)⟩
    · refine edgePairs_nodup (fun e he => ?_) h.pairsUnique
      obtain ⟨⟨n, hn, hs⟩, -⟩ := hjoin e he
      exact hs ▸ hnul n hn
  · exact (registeredErrors_eq_nil m.indexes (incidenceErrors_eq_nil m)).2 fun n hn =>
      ⟨h.triggers n hn, h.incident n hn⟩
  · exact (registeredErrors_eq_nil m.indexes reachabilityErrors_eq_nil).2 fun n hn ht =>
      (m.mem_reachable h.nodeIDsUnique hjoin n.id).2 (h.reachable n hn ht)
  · rw [m.cycle_iff hjoin]
    rintro ⟨id, hc⟩
    exact h.acyclic id hc

end

/-- A trigger, a condition and a task in a row, with `condition` on the edge that leaves the condition. -/
def rowDefinition (condition : RawMessage) : WorkflowDefinition where
  nodes := some [
    ⟨"t", .trigger, "", some []⟩,
    ⟨"c", .condition, "", some [("field", .str "input.a"), ("operator", .str "exists")]⟩,
    ⟨"k", .task, "", some [("queue", .str "q")]⟩]
  edges := some [⟨"e", "t", "c", .empty⟩, ⟨"f", "c", "k", condition⟩]

/-- An edge that carries no branch, or a boolean one. -/
def BranchFree (condition : RawMessage) : Prop :=
  ∀ members, condition = .json (.obj members) →
    members.lookup "branch" = none ∨ ∃ b, members.lookup "branch" = some (.bool b)

theorem rowDefinition_linked (c c' : RawMessage) : (rowDefinition c).Linked = (rowDefinition c').Linked := by
  funext a b
  simp [WorkflowDefinition.Linked, WorkflowDefinition.edgeList, rowDefinition]

end Windylane
