import Windylane.Lib.Traverse
import Windylane.NodeConfig

/-! `ValidateWorkflowDefinition`, the check a definition passes before it is published, after
    `internal/usecase/workflow_validation.go`. Each loop of the source is a fold here that carries the maps the
    loop fills; the errors of the parts are joined in the order in which the source adds them. -/

namespace Windylane

/-- Read an integer-valued Go map, in which an absent key has the value 0. -/
def indexOf (indexes : List (String × Nat)) (id : String) : Nat := (indexes.lookup id).getD 0

/-- `addError`, when `cond` holds. -/
def addErrorIf (cond : Prop) [Decidable cond] (code message path : String) : List WorkflowValidationError :=
  if cond then [⟨code, message, path⟩] else []

/-- `addError` with the text of an error, when there is one. -/
def addErrorOf (err : Option String) (code path : String) : List WorkflowValidationError :=
  err.toList.map fun message => ⟨code, message, path⟩

section

-- `uuid.Parse`; only whether it succeeds matters to the check.
variable (uuidParse : String → Option UUID)

def errorOf {τ : Type} : Except String τ → Option String
  | .ok _ => none
  | .error e => some e

/-- The error of a node's configuration, from the parser of its type. The configuration of a trigger, or of a
    type that is not supported, is not parsed. -/
def configError (node : WorkflowNode) : Option String :=
  match node.type with
  | .task => errorOf (parseWorkflowTaskConfig node.config)
  | .webhook =>
    match parseWorkflowWebhookConfig node.config with
    | .error e => some e
    | .ok config => if (uuidParse config.endpointID).isNone then some "endpoint_id must be a UUID" else none
  | .delay => errorOf (parseWorkflowDelayConfig node.config)
  | .condition => errorOf (parseWorkflowConditionConfig node.config)
  | .trigger => none
  | .other _ => none

/-! ### Nodes -/

/-- The maps that the loop over the nodes fills. -/
structure NodeScan where
  errors : List WorkflowValidationError
  nodes : List (String × WorkflowNode)
  nodeIndexes : List (String × Nat)
  triggerCount : Nat
  actionCount : Nat

def nodePath (index : Nat) : String := "nodes[" ++ toString index ++ "]"

/-- The errors of one node, when the nodes before it are registered in `nodes`. -/
def nodeErrors (nodes : List (String × WorkflowNode)) (index : Nat) (node : WorkflowNode) :
    List WorkflowValidationError :=
  let path := nodePath index
  addErrorIf (node.id = "") "node_id_required" "node id is required" (path ++ ".id") ++
  addErrorIf (node.id ≠ "" ∧ (nodes.lookup node.id).isSome) "duplicate_node_id" "node id must be unique"
    (path ++ ".id") ++
  addErrorIf (node.type.valid = false) "unsupported_node_type" "node type is not supported" (path ++ ".type") ++
  if node.config.isNone then
    [⟨"unsupported_config_shape", "node config must be an object", path ++ ".config"⟩]
  else addErrorOf (configError uuidParse node) "invalid_node_config" (path ++ ".config")

def scanNode (s : NodeScan) (index : Nat) (node : WorkflowNode) : NodeScan where
  errors := s.errors ++ nodeErrors uuidParse s.nodes index node
  nodes := if node.id = "" ∨ (s.nodes.lookup node.id).isSome then s.nodes else s.nodes ++ [(node.id, node)]
  nodeIndexes :=
    if node.id = "" ∨ (s.nodes.lookup node.id).isSome then s.nodeIndexes else s.nodeIndexes ++ [(node.id, index)]
  triggerCount := if node.type = .trigger then s.triggerCount + 1 else s.triggerCount
  actionCount :=
    match node.type with
    | .task | .webhook | .delay | .condition => s.actionCount + 1
    | .trigger | .other _ => s.actionCount

def scanNodes : List WorkflowNode → Nat → NodeScan → NodeScan
  | [], _, s => s
  | node :: rest, index, s => scanNodes rest (index + 1) (scanNode uuidParse s index node)

/-! ### Edges -/

/-- The maps that the loop over the edges fills. -/
structure EdgeScan where
  errors : List WorkflowValidationError
  edgeIDs : List String
  edgePairs : List String
  adjacency : String → List String
  incoming : String → Nat
  degree : String → Nat

def edgePath (index : Nat) : String := "edges[" ++ toString index ++ "]"

/-- The key of an edge in the set of pairs seen: its ends with a NUL between. -/
def edgePair (edge : WorkflowEdge) : String := edge.source ++ "\x00" ++ edge.target

/-- Neither absent nor `null`, and not an object. -/
def conditionMalformed (condition : RawMessage) : Bool :=
  !condition.isNull &&
    match condition.unmarshal with
    | some (.obj _) => false
    | _ => true

/-- The error of the branch that an edge carries, when its source is a condition node. -/
def branchError (nodes : List (String × WorkflowNode)) (edge : WorkflowEdge) : Option String :=
  match nodes.lookup edge.source with
  | some source => if source.type = .condition then errorOf (parseWorkflowBranch edge.condition) else none
  | none => none

/-- The errors of one edge, when `edgeIDs` and `edgePairs` are those of the edges before it. -/
def edgeErrors (nodes : List (String × WorkflowNode)) (edgeIDs edgePairs : List String) (index : Nat)
    (edge : WorkflowEdge) : List WorkflowValidationError :=
  let path := edgePath index
  addErrorIf (edge.id = "") "edge_id_required" "edge id is required" (path ++ ".id") ++
  addErrorIf (edge.id ≠ "" ∧ edge.id ∈ edgeIDs) "duplicate_edge_id" "edge id must be unique" (path ++ ".id") ++
  addErrorIf (nodes.lookup edge.source = none) "invalid_edge_reference"
    "edge source must reference an existing node" (path ++ ".from") ++
  addErrorIf (nodes.lookup edge.target = none) "invalid_edge_reference"
    "edge target must reference an existing node" (path ++ ".to") ++
  addErrorIf (edge.source ≠ "" ∧ edge.source = edge.target) "self_loop" "self-loop edges are not allowed"
    (path ++ ".to") ++
  addErrorIf (edgePair edge ∈ edgePairs) "duplicate_edge"
    "duplicate edges between the same nodes are not allowed" path ++
  addErrorIf (conditionMalformed edge.condition = true) "unsupported_config_shape"
    "edge condition must be an object or null" (path ++ ".condition") ++
  addErrorOf (branchError nodes edge) "invalid_condition_branch" (path ++ ".condition")

def scanEdge (nodes : List (String × WorkflowNode)) (s : EdgeScan) (index : Nat) (edge : WorkflowEdge) : EdgeScan :=
  let joined := (nodes.lookup edge.source).isSome && (nodes.lookup edge.target).isSome
  let count (m : String → Nat) (id : String) := Function.update m id (m id + 1)
  { errors := s.errors ++ edgeErrors nodes s.edgeIDs s.edgePairs index edge
    edgeIDs := if edge.id = "" ∨ edge.id ∈ s.edgeIDs then s.edgeIDs else s.edgeIDs ++ [edge.id]
    edgePairs := if edgePair edge ∈ s.edgePairs then s.edgePairs else s.edgePairs ++ [edgePair edge]
    adjacency :=
      if joined then Function.update s.adjacency edge.source (s.adjacency edge.source ++ [edge.target])
      else s.adjacency
    incoming := if joined then count s.incoming edge.target else s.incoming
    degree := if joined then count (count s.degree edge.source) edge.target else s.degree }

def scanEdges (nodes : List (String × WorkflowNode)) : List WorkflowEdge → Nat → EdgeScan → EdgeScan
  | [], _, s => s
  | edge :: rest, index, s => scanEdges nodes rest (index + 1) (scanEdge nodes s index edge)

/-! ### The graph -/

/-- The loops over the nodes after the edges are read: `errors` of each node that is registered under its own
    index. A node without an id reads index 0 from the map. -/
def registeredErrors (nodeIndexes : List (String × Nat))
    (errors : Nat → WorkflowNode → List WorkflowValidationError) :
    List WorkflowNode → Nat → List WorkflowValidationError
  | [], _ => []
  | node :: rest, index =>
    (if indexOf nodeIndexes node.id ≠ index then [] else errors index node) ++
      registeredErrors nodeIndexes errors rest (index + 1)

def incidenceErrors (s : EdgeScan) (index : Nat) (node : WorkflowNode) : List WorkflowValidationError :=
  addErrorIf (node.type = .trigger ∧ 0 < s.incoming node.id) "trigger_has_incoming_edge"
    "trigger nodes cannot have incoming edges" (nodePath index) ++
  addErrorIf (s.degree node.id = 0) "orphan_node" "publishable workflows cannot contain isolated nodes"
    (nodePath index)

def reachabilityErrors (reachable : List String) (index : Nat) (node : WorkflowNode) : List WorkflowValidationError :=
  addErrorIf (node.type ≠ .trigger ∧ node.id ∉ reachable) "unreachable_node"
    "non-trigger nodes must be reachable from a trigger" (nodePath index)

/-- The ids from which the reachability search starts. -/
def triggerIDs (nodeIndexes : List (String × Nat)) : List WorkflowNode → Nat → List String
  | [], _ => []
  | node :: rest, index =>
    (if indexOf nodeIndexes node.id ≠ index then [] else if node.type = .trigger then [node.id] else []) ++
      triggerIDs nodeIndexes rest (index + 1)

/-- `ValidateWorkflowDefinition`. The two searches visit node ids only, so the number of nodes bounds them. -/
def validateWorkflowDefinition (definition : WorkflowDefinition) : WorkflowValidationResult :=
  let nodes := definition.nodeList
  let s := scanNodes uuidParse nodes 0 ⟨[], [], [], 0, 0⟩
  let e := scanEdges s.nodes definition.edgeList 0 ⟨[], [], [], fun _ => [], fun _ => 0, fun _ => 0⟩
  let triggers := triggerIDs s.nodeIndexes nodes 0
  let reachable := Graph.bfs e.adjacency nodes.length triggers triggers
  let found := Graph.search e.adjacency nodes.length (nodes.map (·.id)) ⟨fun _ => .unvisited, false⟩
  let errors :=
    addErrorIf (definition.nodes = none) "nodes_required" "definition must include a nodes array" "nodes" ++
    addErrorIf (definition.edges = none) "edges_required" "definition must include an edges array" "edges" ++
    s.errors ++
    addErrorIf (s.triggerCount = 0) "missing_trigger" "workflow must contain at least one trigger node" "nodes" ++
    addErrorIf (s.actionCount = 0) "missing_action"
      "workflow must contain at least one executable or action node" "nodes" ++
    e.errors ++
    registeredErrors s.nodeIndexes (incidenceErrors e) nodes 0 ++
    registeredErrors s.nodeIndexes (reachabilityErrors reachable) nodes 0 ++
    addErrorIf (found.cycle = true) "cycle_detected" "workflow graph must be acyclic" "edges"
  ⟨errors.isEmpty, errors⟩

end

end Windylane
