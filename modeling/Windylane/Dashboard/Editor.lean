import Mathlib.Data.Rat.Floor
import Windylane.Domain

/-! The workflow editor of the dashboard, after `apps/dashboard/src/lib/workflow-editor-model.ts`: what it opens and saves,
    and what it checks before it saves. Values that come from `JSON.parse` are `Json`; an object of JavaScript has no key
    twice. -/

namespace Windylane.Dashboard

structure Position where
  x : Rat
  y : Rat
deriving DecidableEq

structure Node where
  id : String
  type : WorkflowNodeType
  name : String
  position : Option Position
  config : Json
deriving DecidableEq

structure Edge where
  id : String
  source : String
  target : String
  condition : Json
deriving DecidableEq

structure Definition where
  nodes : List Node
  edges : List Edge
deriving DecidableEq

/-- A property of a value; `none` is `undefined`. -/
def property (key : String) : Json → Option Json
  | .obj members => members.lookup key
  | _ => none

/-! ### Opening and saving -/

/-- An error of the backend; its path may be missing. -/
structure ValidationError where
  code : String
  message : String
  path : Option String

structure EditorNode where
  id : String
  type : String
  position : Position
  workflowNode : Node
  validationMessages : List String

/-- `sourceHandle` and `label` are what the canvas shows of a branch. -/
structure EditorEdge where
  id : String
  source : String
  target : String
  sourceHandle : Option String
  label : Option String
  condition : Option Bool
  validationMessages : List String

structure Editor where
  nodes : List EditorNode
  edges : List EditorEdge

def messagesForPath (errors : List ValidationError) (start : String) : List String :=
  (errors.filter fun error => error.path.any fun path => start.toList.isPrefixOf path.toList).map (·.message)

def fallbackPosition (index : Nat) : Position := ⟨64 + (index % 3 : Nat) * 270, 64 + (index / 3 : Nat) * 170⟩

/-- The branch of an edge, when it is a boolean. -/
def branchOf (condition : Json) : Option Bool :=
  match property "branch" condition with
  | some (.bool branch) => some branch
  | _ => none

def editorNode (errors : List ValidationError) (workflowNode : Node) (index : Nat) : EditorNode where
  id := workflowNode.id
  type := "workflow"
  position := workflowNode.position.getD (fallbackPosition index)
  workflowNode := workflowNode
  validationMessages := messagesForPath errors ("nodes[" ++ toString index ++ "]")

def editorEdge (errors : List ValidationError) (edge : Edge) (index : Nat) : EditorEdge where
  id := edge.id
  source := edge.source
  target := edge.target
  sourceHandle := (branchOf edge.condition).map fun branch => if branch then "true" else "false"
  label := (branchOf edge.condition).map fun branch => if branch then "true" else "false"
  condition := branchOf edge.condition
  validationMessages := messagesForPath errors ("edges[" ++ toString index ++ "]")

def definitionToEditor (definition : Definition) (errors : List ValidationError) : Editor where
  nodes := definition.nodes.mapIdx fun index node => editorNode errors node index
  edges := definition.edges.mapIdx fun index edge => editorEdge errors edge index

/-- `Math.round`: halves go up. -/
def mathRound (x : Rat) : Rat := ⌊x + 1 / 2⌋

def editorToDefinition (editor : Editor) : Definition where
  nodes := editor.nodes.map fun node =>
    { node.workflowNode with position := some ⟨mathRound node.position.x, mathRound node.position.y⟩ }
  edges := editor.edges.map fun edge =>
    ⟨edge.id, edge.source, edge.target, match edge.condition with
      | some branch => .obj [("branch", .bool branch)]
      | none => .null⟩

/-! ### The check before saving -/

/-- What is used of the numbers of JavaScript; `none` is `NaN`. -/
structure JSNumbers where
  toText : Rat → String
  ofText : String → Option Rat

/-- White space and line ends as `trim` takes them off: those of Go without U+0085, and with U+FEFF. -/
def isJSSpace (c : Char) : Bool := (isSpace c && c.toNat ≠ 0x85) || c.toNat = 0xfeff

/-- `trim()`. -/
def jsTrim (s : String) : String :=
  String.ofList (((s.toList.dropWhile isJSSpace).reverse.dropWhile isJSSpace).reverse)

mutual

/-- `String(value)`. -/
def jsString (numbers : JSNumbers) : Json → String
  | .null => "null"
  | .bool b => if b then "true" else "false"
  | .num q => numbers.toText q
  | .str s => s
  | .arr items => jsJoin numbers items
  | .obj _ => "[object Object]"

/-- An array as a text: its items with commas between, `null` as nothing. -/
def jsJoin (numbers : JSNumbers) : List Json → String
  | [] => ""
  | [.null] => ""
  | [x] => jsString numbers x
  | .null :: rest => "," ++ jsJoin numbers rest
  | x :: rest => jsString numbers x ++ "," ++ jsJoin numbers rest

end

/-- `String(value ?? "")`. -/
def textOf (numbers : JSNumbers) : Option Json → String
  | none | some .null => ""
  | some value => jsString numbers value

/-- `Number(value)`. -/
def numberOf (numbers : JSNumbers) : Option Json → Option Rat
  | none => none
  | some .null => some 0
  | some (.bool b) => some (if b then 1 else 0)
  | some (.num q) => some q
  | some (.str s) => numbers.ofText s
  | some (.arr items) => numbers.ofText (jsJoin numbers items)
  | some (.obj _) => none

/-- The error of a configuration; `""` when there is none. -/
def validateConfig (numbers : JSNumbers) (type : WorkflowNodeType) (config : Json) : String :=
  match type with
  | .task => if jsTrim (textOf numbers (property "queue" config)) = "" then "task queue is required" else ""
  | .webhook => if jsTrim (textOf numbers (property "endpoint_id" config)) = "" then "webhook endpoint is required" else ""
  | .delay =>
    match numberOf numbers (property "duration_seconds" config) with
    | some seconds => if seconds.den ≠ 1 ∨ seconds < 0 ∨ 604800 < seconds then "delay must be between 0 and 604800 seconds" else ""
    | none => "delay must be between 0 and 604800 seconds"
  | .condition =>
    let field := textOf numbers (property "field" config)
    let operator := textOf numbers (property "operator" config)
    if !("input.".toList.isPrefixOf field.toList) then "condition field must begin with input."
    else if operator ∉ ["equals", "not_equals", "exists"] then "condition operator is invalid"
    else if operator ≠ "exists" ∧ property "value" config = none then "condition value is required"
    else ""
  | _ => ""

/-- The errors that the loop over the nodes sets, each under the id of its node. -/
def draftNodes (numbers : JSNumbers) : List Node → List String → List (String × String)
  | [], _ => []
  | node :: rest, seen =>
    (if jsTrim node.id = "" then [(node.id, "node id is required")] else []) ++
    (if node.id ∈ seen then [(node.id, "node ids must be unique")] else []) ++
    (if jsTrim node.name = "" then [(node.id, "label is required")] else []) ++
    (if validateConfig numbers node.type node.config = "" then [] else [(node.id, validateConfig numbers node.type node.config)]) ++
    draftNodes numbers rest (seen ++ [node.id])

/-- The errors that the loop over the edges sets, each under the id of its edge. -/
def draftEdges : List Edge → List String → List (String × String)
  | [], _ => []
  | edge :: rest, pairs =>
    (if edge.source = edge.target then [(edge.id, "self-loops are not allowed")] else []) ++
    (if edge.source ++ "\x00" ++ edge.target ∈ pairs then [(edge.id, "duplicate connection")] else []) ++
    draftEdges rest (pairs ++ [edge.source ++ "\x00" ++ edge.target])

/-- `validateDraft`: the errors in the order in which they are set. -/
def validateDraft (numbers : JSNumbers) (definition : Definition) : List (String × String) :=
  draftNodes numbers definition.nodes [] ++ draftEdges definition.edges []

/-! ### What the backend sends -/

/-- The definition of a response, as it is parsed. A node may have a position, which the backend does not read. -/
def received (position : Nat → Option Position) (definition : WorkflowDefinition) : Definition where
  nodes := definition.nodeList.mapIdx fun index node =>
    ⟨node.id, node.type, node.name, position index, .obj (Json.normalizeMembers (node.config.getD []) [])⟩
  edges := definition.edgeList.map fun edge =>
    ⟨edge.id, edge.source, edge.target, (edge.condition.unmarshal).getD .null⟩

end Windylane.Dashboard
